import CvmMeasure.Python.Dict
import CvmMeasure.Python.Exceptions
import CvmMeasure.Python.Text
import CvmMeasure.Tdx.Guid

/-! # OVMF metadata

The firmware side of `mrtd.py`: the GUID table at the end of an OVMF image, the TDX metadata it points
to, and the configuration firmware volume the metadata describes.

* **`parseFwGuidTable`**: the blocks of the GUID table, walked backwards from the footer;
* **`parseTdxMetadata`**: the section descriptors;
* **`cfvImage`**: the one configuration firmware volume, as the guest receives it. -/

namespace CvmMeasure.Tdx

open Binary Python

def tdxSectionBfv : Nat := 0
def tdxSectionCfv : Nat := 1
def tdxSectionTdhob : Nat := 2
def tdxSectionTempmem : Nat := 3

def tdxMetadataAttrExtendMr : Nat := 0x00000001
def tdxMetadataVersion : Nat := 1
def tdxMetadataMagic : Nat := 0x46564454

/-- Descriptor header: signature, length, version, section count. -/
def tdxMetadataHeaderSize : Nat := 16
/-- One section descriptor: two `UINT32`, two `UINT64`, two `UINT32`. -/
def tdxMetadataSectionSize : Nat := 32

def fwGuidTableEndOffset : Nat := 0x20
def fwGuidEntrySize : Nat := 18
def fwGuidTableFooter : Bytes := uuidOfString "96b582de-1fb2-45f7-baea-a366c55a082d"
def tdxMetadataOffsetGuid : Bytes := uuidOfString "e47a6535-984a-4798-865e-4685a7bf8ec2"
def tdxMetadataGuid : Bytes := uuidOfString "e9eaf9f3-168e-44d5-a8eb-7f4d8738f6ae"

/-! ## The GUID table -/

/-- `data[start:stop]` for a start that may be negative and then counts from the end. -/
def sliceFrom (data : Bytes) (start : Int) (stop : Nat) : Bytes :=
  slice data (if start < 0 then (start + data.length).toNat else start.toNat) stop

/-- The `while` loop of `_parse_fw_guid_table`, at most `fuel` times round. -/
def guidTableLoop (table : Bytes) : Nat → Nat → Dict Bytes Bytes → Py (Dict Bytes Bytes)
  | 0, _, _ => throw .outOfFuel
  | fuel + 1, remaining, result =>
    if remaining > 0 then do
      refuseIf (remaining < fwGuidEntrySize) (.valueError "Corrupted GUID table")
      let entOff := remaining - fwGuidEntrySize
      let entSize := uintAt table entOff 2
      let entGuid := efiBytesToUuid (slice table (entOff + 2) (entOff + 18))
      refuseIf (entSize < fwGuidEntrySize ∨ entSize > remaining)
        (.valueError s!"Corrupted GUID table entry: size={entSize}")
      let blockStart := remaining - entSize
      guidTableLoop table fuel (remaining - entSize)
        (result.set entGuid (slice table blockStart (blockStart + entSize)))
    else pure result

/-- `_parse_fw_guid_table`: the blocks of the GUID table embedded at the end of the firmware. Every
entry takes at least eighteen bytes, so the table's length bounds the iterations. -/
def parseFwGuidTable (firmware : Bytes) : Py (Dict Bytes Bytes) := do
  let minSize := fwGuidTableEndOffset + fwGuidEntrySize
  refuseIf (firmware.length < minSize)
    (.valueError s!"Firmware too small ({firmware.length} < {minSize})")
  let footerOffset := firmware.length - fwGuidTableEndOffset - fwGuidEntrySize
  let entrySize := uintAt firmware footerOffset 2
  let entryGuid := efiBytesToUuid (slice firmware (footerOffset + 2) (footerOffset + 18))
  refuseIf (entryGuid ≠ fwGuidTableFooter)
    (.valueError s!"Missing GUID table footer (got {uuidText entryGuid})")
  refuseIf (entrySize < fwGuidEntrySize)
    (.valueError s!"Invalid GUID table footer size: {entrySize}")
  let tableEnd := firmware.length - fwGuidTableEndOffset - fwGuidEntrySize
  let tableContentsLen := entrySize - fwGuidEntrySize
  let tableStart : Int := tableEnd - tableContentsLen
  let table := sliceFrom firmware tableStart tableEnd
  guidTableLoop table (table.length + 1) table.length []

/-! ## TDX metadata -/

/-- `TDXMetadataSection`: one firmware region described in the TDX metadata table. -/
structure TdxMetadataSection where
  dataOffset : Nat
  dataSize : Nat
  memoryBase : Nat
  memorySize : Nat
  sectionType : Nat
  attributes : Nat
  deriving DecidableEq, Repr

/-- `TDXMetadata`. -/
structure TdxMetadata where
  version : Nat
  sections : List TdxMetadataSection
  deriving DecidableEq, Repr

/-- The section descriptor at `pos`: `struct.unpack_from("<IIQQII", ...)`. -/
def sectionAt (firmware : Bytes) (pos : Nat) : TdxMetadataSection :=
  { dataOffset := uintAt firmware pos 4
    dataSize := uintAt firmware (pos + 4) 4
    memoryBase := uintAt firmware (pos + 8) 8
    memorySize := uintAt firmware (pos + 16) 8
    sectionType := uintAt firmware (pos + 24) 4
    attributes := uintAt firmware (pos + 28) 4 }

/-- `_parse_tdx_metadata`: locate and parse the TDX metadata descriptor. -/
def parseTdxMetadata (firmware : Bytes) : Py TdxMetadata := do
  let guidBlocks ← parseFwGuidTable firmware
  match guidBlocks.get? tdxMetadataOffsetGuid with
  | none => throw (.valueError "TDX metadata offset GUID not found")
  | some offsetBlock =>
    let metadataOffset := uintAt offsetBlock 0 4
    let fwLen := firmware.length
    refuseIf (metadataOffset < 16 ∨ metadataOffset > fwLen - 16)
      (.valueError s!"Invalid TDX metadata offset: 0x{hexUpper 0 metadataOffset}")
    let guidPos := fwLen - metadataOffset - 16
    let foundGuid := efiBytesToUuid (slice firmware guidPos (guidPos + 16))
    refuseIf (foundGuid ≠ tdxMetadataGuid)
      (.valueError s!"TDX metadata GUID mismatch: got {uuidText foundGuid}")
    let descPos := guidPos + 16
    refuseIf (descPos + tdxMetadataHeaderSize > fwLen)
      (.valueError
        s!"TDX metadata descriptor at offset {descPos} does not fit in a {fwLen}-byte firmware image")
    let signature := uintAt firmware descPos 4
    let version := uintAt firmware (descPos + 8) 4
    let sectionCount := uintAt firmware (descPos + 12) 4
    refuseIf (signature ≠ tdxMetadataMagic)
      (.valueError s!"Bad TDX metadata signature: 0x{hexUpper 8 signature}")
    refuseIf (version ≠ tdxMetadataVersion)
      (.valueError s!"Unsupported TDX metadata version: {version}")
    let secPos := descPos + tdxMetadataHeaderSize
    let available := fwLen - secPos
    refuseIf (sectionCount * tdxMetadataSectionSize > available)
      (.valueError
        s!"TDX metadata declares {sectionCount} section(s), needing {sectionCount * tdxMetadataSectionSize} byte(s) of the {available} left in the image")
    let sections := (List.range sectionCount).map fun i =>
      sectionAt firmware (secPos + i * tdxMetadataSectionSize)
    pure { version, sections }

/-- A section descriptor as the image stores it. -/
def TdxMetadataSection.encode (s : TdxMetadataSection) : Bytes :=
  leBytes 4 s.dataOffset ++ leBytes 4 s.dataSize ++ leBytes 8 s.memoryBase ++ leBytes 8 s.memorySize
    ++ leBytes 4 s.sectionType ++ leBytes 4 s.attributes

/-- A small image with the given sections: the metadata, the GUID table, and the reset vector. -/
def sampleFirmware (sections : List TdxMetadataSection) : Bytes :=
  let descriptor := leBytes 4 tdxMetadataMagic
    ++ leBytes 4 (tdxMetadataHeaderSize + sections.length * tdxMetadataSectionSize)
    ++ leBytes 4 tdxMetadataVersion ++ leBytes 4 sections.length
    ++ sections.flatMap TdxMetadataSection.encode
  uuidToEfiBytes tdxMetadataGuid ++ descriptor
    ++ (leBytes 4 (descriptor.length + 72) ++ leBytes 2 22 ++ uuidToEfiBytes tdxMetadataOffsetGuid)
    ++ (leBytes 2 40 ++ uuidToEfiBytes fwGuidTableFooter) ++ List.replicate fwGuidTableEndOffset 0x00

/-- `cfv_image`: the configuration firmware volume as the guest receives it, the section's file bytes
zero-filled out to its memory size. -/
def cfvImage (firmware : Bytes) : Py Bytes := do
  let metadata ← parseTdxMetadata firmware
  match metadata.sections.filter fun s => s.sectionType == tdxSectionCfv with
  | [cfv] =>
    let cfvEnd := cfv.dataOffset + cfv.dataSize
    refuseIf (cfv.memorySize = 0 ∨ cfv.dataSize > cfv.memorySize)
      (.valueError
        s!"Firmware TDX metadata describes an unusable CFV: {cfv.dataSize} byte(s) of data in a {cfv.memorySize}-byte memory region")
    refuseIf (cfv.memorySize > firmware.length)
      (.valueError
        s!"Firmware TDX metadata maps the CFV to 0x{hexUpper 0 cfv.memorySize} byte(s), more than the {firmware.length}-byte image it comes from")
    refuseIf (cfvEnd > firmware.length)
      (.valueError
        s!"Firmware TDX metadata places the CFV at 0x{hexUpper 0 cfv.dataOffset} + 0x{hexUpper 0 cfv.dataSize}, past the end of a {firmware.length}-byte image")
    pure (zeroFill (slice firmware cfv.dataOffset cfvEnd) cfv.memorySize)
  | sections =>
    throw (.valueError
      s!"Firmware TDX metadata describes {sections.length} CFV section(s); RTMR[0] needs exactly one to measure")

end CvmMeasure.Tdx
