import CvmMeasure.Disk.GptLayout

/-! # What a GPT measurement does not see

Of an image of any size, only the sector of the header and the entry array it points at are read. What the
partitions hold, and anything between, in front of or behind them, is measured elsewhere or not at all.

* `SameTable`: images that agree on the header sector and the entry array;
* **`readGpt_of_sameTable`**: they are read alike;
* **`partitions_unmeasured`**: so they have the same event data, the same ESP, and the same refusals. -/

namespace CvmMeasure.Disk

open Binary Python

/-- The entry array the header of an image points at, in another image. -/
def entryArray (image other : Bytes) : Bytes :=
  slice other (entryLba image * 512) (entryLba image * 512 + entryCount image * entrySize image)

/-- The images agree on the header sector, and on the entry array it points at. -/
structure SameTable (image image' : Bytes) : Prop where
  header : slice image 512 1024 = slice image' 512 1024
  array : entryArray image image = entryArray image image'

variable {crc32 : Bytes → Nat} {image image' : Bytes}

/-- **The table is read alike**, whatever else the images hold. -/
theorem readGpt_of_sameTable (h : SameTable image image') : readGpt crc32 image = readGpt crc32 image' := by
  have hsector : ∀ other : Bytes, slice other (gptHeaderLba * sectorSize)
      (gptHeaderLba * sectorSize + sectorSize) = slice other 512 1024 := fun _ => rfl
  simp only [readGpt, hsector]
  rw [← h.header]
  cases hvalid : validateGptHeader crc32 (slice image 512 1024) with
  | error e => rfl
  | ok fields =>
    obtain ⟨lba, count, size⟩ := fields
    obtain ⟨-, hlba, hcount, hsize, -⟩ := validateGptHeader_eq_ok hvalid
    obtain rfl : lba = entryLba image := hlba.trans (uintAt_header image (by decide))
    obtain rfl : count = entryCount image := hcount.trans (uintAt_header image (by decide))
    obtain rfl : size = entrySize image := hsize.trans (uintAt_header image (by decide))
    have harray : slice image (entryLba image * sectorSize)
        (entryLba image * sectorSize + entryCount image * entrySize image)
        = slice image' (entryLba image * sectorSize)
          (entryLba image * sectorSize + entryCount image * entrySize image) := h.array
    simp only [ok_bind]
    rw [harray]

/-- **Only the partition table is measured.** Images that agree on the header sector and on the entry array
have the same GPT event data and the same EFI System Partition, or are refused with the same exception. -/
theorem partitions_unmeasured (crc32 : Bytes → Nat) (image image' : Bytes) (h : SameTable image image') :
    gptEventData crc32 image = gptEventData crc32 image' ∧
      findEspOffset crc32 image = findEspOffset crc32 image' := by
  have hread : readGpt crc32 image = readGpt crc32 image' := readGpt_of_sameTable h
  constructor
  · rw [gptEventData, hread, gptEventData]
  · rw [findEspOffset, hread, findEspOffset]

/-- A boot sector and a partition are not measured. -/
theorem partitions_unmeasured_sample :
    gptEventData (fun _ => 7) sampleDisk
      = gptEventData (fun _ => 7) (List.replicate 512 0xFF ++ sampleDisk.drop 512 ++ [0x01, 0x02]) ∧
    (gptEventData (fun _ => 7) sampleDisk).isOk := by
  have h := partitions_unmeasured (fun _ => 7) sampleDisk
    (List.replicate 512 0xFF ++ sampleDisk.drop 512 ++ [0x01, 0x02]) ⟨by decide +kernel, by decide +kernel⟩
  exact ⟨h.1, by decide +kernel⟩

end CvmMeasure.Disk
