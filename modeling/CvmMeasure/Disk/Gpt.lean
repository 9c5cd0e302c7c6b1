import CvmMeasure.Binary.Patch
import CvmMeasure.Python.Exceptions
import CvmMeasure.Python.Text

/-! # The GUID partition table

`disk.py`: the partition table of a pod VM image, as EDK2 measures it. The image is given by its raw
bytes; CRC-32 is an arbitrary function.

* **`validateGptHeader`**: the checks of the header at LBA 1;
* **`readGpt`**: the measured header and the non-empty partition entries;
* **`gptEventData`**: the data of the `EV_EFI_GPT_EVENT`. -/

namespace CvmMeasure.Disk

open Binary Python

/-- The EFI System Partition GUID in mixed-endian binary form. -/
def espGuid : Bytes :=
  [0x28, 0x73, 0x2A, 0xC1, 0x1F, 0xF8, 0xD2, 0x11, 0xBA, 0x4B, 0x00, 0xA0, 0xC9, 0x3E, 0xC9, 0x3B]

def zeroGuid : Bytes := List.replicate 16 0x00

/-- The primary header, its first 92 bytes through PartitionEntryArrayCRC32. -/
def gptHeaderLba : Nat := 1
def sectorSize : Nat := 512
def gptSignature : Bytes := asciiBytes "EFI PART"
def gptHeaderPrefixLen : Nat := 92
def gptOffHeaderSize : Nat := 12
def gptOffHeaderCrc32 : Nat := 16
def gptOffPartitionEntryLba : Nat := 72
def gptOffNumPartitionEntries : Nat := 80
def gptOffPartitionEntrySize : Nat := 84
def gptOffEntryArrayCrc32 : Nat := 88

/-- SizeOfPartitionEntry must be `128 * 2 ^ n`. -/
def gptMinEntrySize : Nat := 128
/-- The most the tool reads for the entry array. -/
def gptMaxEntryArrayBytes : Nat := 2 ^ 20

def partOffTypeGuid : Nat := 0
def partOffStartingLba : Nat := 32

section

variable (crc32 : Bytes → Nat)

/-- `_validate_gpt_header`: the entry LBA, the number of entries and the entry size. -/
def validateGptHeader (header : Bytes) : Py (Nat × Nat × Nat) := do
  refuseIf (header.length < gptHeaderPrefixLen ∨ header.take gptSignature.length ≠ gptSignature)
    (.valueError "Not a GPT disk")
  let headerSize := uintAt header gptOffHeaderSize 4
  refuseIf (¬ (gptHeaderPrefixLen ≤ headerSize ∧ headerSize ≤ header.length))
    (.valueError s!"Invalid GPT header size: {headerSize}")
  let storedCrc := uintAt header gptOffHeaderCrc32 4
  -- the header's CRC is taken with its own field zeroed
  let zeroed := patch (header.take headerSize) gptOffHeaderCrc32 (leBytes 4 0)
  let actualCrc := crc32 zeroed
  refuseIf (actualCrc ≠ storedCrc)
    (.valueError
      s!"GPT header CRC32 mismatch: header records 0x{hexLower 8 storedCrc}, computed 0x{hexLower 8 actualCrc}")
  let entryLba := uintAt header gptOffPartitionEntryLba 8
  let count := uintAt header gptOffNumPartitionEntries 4
  let entrySize := uintAt header gptOffPartitionEntrySize 4
  refuseIf (entrySize < gptMinEntrySize ∨ entrySize % gptMinEntrySize ≠ 0)
    (.valueError s!"Invalid GPT partition entry size: {entrySize}")
  let multiple := entrySize / gptMinEntrySize
  refuseIf (multiple &&& (multiple - 1) ≠ 0)
    (.valueError s!"GPT partition entry size must be 128 * 2**n, got {entrySize}")
  refuseIf (count = 0) (.valueError "GPT header declares zero partition entries")
  refuseIf (count * entrySize > gptMaxEntryArrayBytes)
    (.valueError
      s!"GPT partition entry array is implausibly large: {count} entries of {entrySize} bytes exceeds {gptMaxEntryArrayBytes} bytes")
  refuseIf (entryLba = 0)
    (.valueError "GPT header points its partition entry array at LBA 0")
  pure (entryLba, count, entrySize)

/-- `range(0, stop, step)`. -/
def entryOffsets (stop step : Nat) : List Nat :=
  (List.range ((stop + step - 1) / step)).map (· * step)

/-- The partition has a type: its first sixteen bytes are not all zero. -/
def isNonEmpty (entry : Bytes) : Bool :=
  slice entry partOffTypeGuid (partOffTypeGuid + 16) != zeroGuid

/-- `_read_gpt`: the fixed 92 bytes of the header that EDK2 copies, and the non-empty entries. An offset that
Python accepts is taken to be one the file system can seek to: one that refuses raises `OSError`, where here the
array is cut short. -/
def readGpt (image : Bytes) : Py (Bytes × List Bytes) := do
  let header := slice image (gptHeaderLba * sectorSize) (gptHeaderLba * sectorSize + sectorSize)
  let (entryLba, count, entrySize) ← validateGptHeader crc32 header
  let arrayLen := count * entrySize
  -- `seek` takes an offset of the platform's file type
  refuseIf (entryLba * sectorSize ≥ 2 ^ 63)
    (.valueError "cannot fit 'int' into an offset-sized integer")
  let array := slice image (entryLba * sectorSize) (entryLba * sectorSize + arrayLen)
  refuseIf (array.length ≠ arrayLen)
    (.valueError
      s!"Truncated GPT partition entry array: expected {arrayLen} bytes, read {array.length}")
  let storedCrc := uintAt header gptOffEntryArrayCrc32 4
  let actualCrc := crc32 array
  refuseIf (actualCrc ≠ storedCrc)
    (.valueError
      s!"GPT partition entry array CRC32 mismatch: header records 0x{hexLower 8 storedCrc}, computed 0x{hexLower 8 actualCrc}")
  let entries := ((entryOffsets arrayLen entrySize).map fun offset =>
    slice array offset (offset + entrySize)).filter isNonEmpty
  pure (header.take gptHeaderPrefixLen, entries)

/-- `find_esp_offset`: the byte offset of the EFI System Partition. -/
def findEspOffset (image : Bytes) : Py Nat := do
  let (_, entries) ← readGpt crc32 image
  match entries.find? fun entry => slice entry partOffTypeGuid (partOffTypeGuid + 16) == espGuid with
  | none => throw (.valueError "No EFI System Partition found")
  | some entry => pure (uintAt entry partOffStartingLba 8 * sectorSize)

/-- `gpt_event_data`: the header, the number of non-empty entries, and these entries. -/
def gptEventData (image : Bytes) : Py Bytes := do
  let (header, entries) ← readGpt crc32 image
  pure (header ++ leBytes 8 entries.length ++ entries.flatten)

end

end CvmMeasure.Disk
