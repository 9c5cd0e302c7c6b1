import CvmMeasure.Binary.Chunks
import CvmMeasure.Binary.PrefixCode
import CvmMeasure.Disk.Gpt

/-! # GPT event data is exact and injective

The reference reads the table straight off the image, by the fields of the header at LBA 1: the entries
are `entryCount image` windows of `entrySize image` bytes from `entryLba image` on.

* **`GptExact`**: the event data of an accepted image, field by field;
* **`flatten_injective`**: pieces of one length are found again in their concatenation;
* **`gptEventData_exact`**: accepted images have exact event data, and equal data has equal headers and
  entries. -/

namespace CvmMeasure.Disk

open Binary Python

/-! ## The table on the image -/

/-- The 92 measured bytes of the header at LBA 1. -/
def gptHeader (image : Bytes) : Bytes := slice image 512 (512 + 92)

/-- The LBA the entry array starts at. -/
def entryLba (image : Bytes) : Nat := uintAt image (512 + 72) 8

/-- The number of partition entries that the header declares, -/
def entryCount (image : Bytes) : Nat := uintAt image (512 + 80) 4

/-- and the size of each. -/
def entrySize (image : Bytes) : Nat := uintAt image (512 + 84) 4

/-- The entries of the table, in array order. -/
def tableEntries (image : Bytes) : List Bytes :=
  (List.range (entryCount image)).map fun i =>
    slice image (entryLba image * 512 + i * entrySize image)
      (entryLba image * 512 + i * entrySize image + entrySize image)

/-- Those whose type GUID is not zero. -/
def nonEmptyEntries (image : Bytes) : List Bytes :=
  (tableEntries image).filter fun entry => entry.take 16 ≠ List.replicate 16 0x00

/-- **Exact event data**: the entry size is allowed, the entries are whole and fill the array, which
lies inside the image, and the data are the header, the number of non-empty entries and these. -/
structure GptExact (image data : Bytes) : Prop where
  entrySize_eq : ∃ k, entrySize image = 128 * 2 ^ k
  array_inside : entryLba image * 512 + entryCount image * entrySize image ≤ image.length
  entries_whole : ∀ entry ∈ tableEntries image, entry.length = entrySize image
  entries_flatten : (tableEntries image).flatten = slice image (entryLba image * 512)
    (entryLba image * 512 + entryCount image * entrySize image)
  header_length : (gptHeader image).length = 92
  data_eq : data = gptHeader image ++ (leBytes 8 (nonEmptyEntries image).length
    ++ (nonEmptyEntries image).flatten)

/-! ## Re-cutting a concatenation -/

/-- **Pieces of one positive length are found again in their concatenation.** -/
theorem flatten_injective {n : Nat} (hn : 0 < n) {xs ys : List Bytes} (hx : ∀ x ∈ xs, x.length = n)
    (hy : ∀ y ∈ ys, y.length = n) (h : xs.flatten = ys.flatten) : xs = ys := by
  have hcode : PrefixFree (fun x : Bytes => x.length = n) id :=
    prefixFree_of_length (n := n) (fun _ ha => ha) fun _ _ _ _ heq => heq
  refine hcode.flatMap_injective (fun x hlen hnil => ?_) hx hy ?_
  · have hzero : x = [] := hnil
    rw [hzero, List.length_nil] at hlen
    omega
  · rw [List.flatMap_id, List.flatMap_id, h]

/-! ## The checks -/

/-- A number that shares no bit with its predecessor is a power of two. -/
theorem exists_eq_two_pow {m : Nat} (hpos : m ≠ 0) (h : m &&& (m - 1) = 0) : ∃ k, m = 2 ^ k :=
  (Nat.and_sub_one_eq_zero_iff_isPowerOfTwo hpos).mp h

section

variable {crc32 : Bytes → Nat} {image : Bytes}

/-- What the checks of an accepted header leave. -/
theorem validateGptHeader_eq_ok {header : Bytes} {lba count size : Nat}
    (h : validateGptHeader crc32 header = .ok (lba, count, size)) :
    92 ≤ header.length ∧ lba = uintAt header 72 8 ∧ count = uintAt header 80 4 ∧
      size = uintAt header 84 4 ∧ 0 < count ∧ ∃ k, size = 128 * 2 ^ k := by
  simp only [validateGptHeader, bind_eq_ok, refuseIf_eq_ok, pure_eq_ok, not_or, not_not,
    Prod.mk.injEq] at h
  obtain ⟨_, ⟨hlen, -⟩, _, -, _, -, _, ⟨hmin, hmod⟩, _, hpow, _, hne, _, -, _, -, rfl, rfl, rfl⟩ := h
  refine ⟨Nat.le_of_not_lt hlen, rfl, rfl, rfl, Nat.pos_of_ne_zero hne, ?_⟩
  simp only [gptMinEntrySize, gptOffPartitionEntrySize] at hmin hmod hpow
  obtain ⟨k, hk⟩ := exists_eq_two_pow (by omega) hpow
  refine ⟨k, ?_⟩
  rw [← hk]
  show uintAt header 84 4 = _
  omega

/-- A field of the header, read on the image. -/
theorem uintAt_header (image : Bytes) {off width : Nat} (h : off + width ≤ 512) :
    uintAt (slice image 512 1024) off width = uintAt image (512 + off) width := by
  rw [uintAt, uintAt, slice_slice _ (by omega), Nat.add_assoc]

/-- The offsets of an array of whole entries. -/
theorem entryOffsets_mul {count size : Nat} (h : 0 < size) :
    entryOffsets (count * size) size = (List.range count).map (· * size) := by
  have hcount : (count * size + size - 1) / size = count := by
    rw [Nat.add_sub_assoc h, Nat.mul_comm, Nat.mul_add_div h,
      Nat.div_eq_of_lt (Nat.sub_lt h Nat.one_pos), Nat.add_zero]
  rw [entryOffsets, hcount]

/-- The window of an entry is inside the array. -/
theorem entry_end_le {i count : Nat} (size : Nat) (h : i < count) : i * size + size ≤ count * size := by
  rw [← Nat.succ_mul]
  exact Nat.mul_le_mul_right size h

/-- What an accepted table is read as. -/
theorem readGpt_eq_ok {header : Bytes} {entries : List Bytes}
    (h : readGpt crc32 image = .ok (header, entries)) :
    header = gptHeader image ∧ entries = nonEmptyEntries image ∧ 512 + 92 ≤ image.length ∧
      (∃ k, entrySize image = 128 * 2 ^ k) ∧
      entryLba image * 512 + entryCount image * entrySize image ≤ image.length := by
  simp only [readGpt, bind_eq_ok, refuseIf_eq_ok, pure_eq_ok, not_not, Prod.mk.injEq] at h
  obtain ⟨⟨lba, count, size⟩, hvalid, _, -, _, hlen, _, -, rfl, rfl⟩ := h
  obtain ⟨hheader, hlba, hcount, hsize, hcountPos, k, hk⟩ := validateGptHeader_eq_ok hvalid
  have hsector : slice image (gptHeaderLba * sectorSize) (gptHeaderLba * sectorSize + sectorSize)
      = slice image 512 1024 := rfl
  rw [hsector] at hheader hlba hcount hsize
  -- the fields, read on the image
  obtain rfl : lba = entryLba image := hlba.trans (uintAt_header image (by decide))
  obtain rfl : count = entryCount image := hcount.trans (uintAt_header image (by decide))
  obtain rfl : size = entrySize image := hsize.trans (uintAt_header image (by decide))
  have hpos : 0 < entrySize image := by
    rw [hk]
    exact Nat.mul_pos (by decide) (Nat.two_pow_pos k)
  have harray := Nat.mul_pos hcountPos hpos
  rw [length_slice] at hheader hlen
  refine ⟨?_, ?_, by omega, ⟨k, hk⟩, ?_⟩
  · rw [hsector, gptHeader, slice, slice, List.take_take]
    rfl
  · rw [nonEmptyEntries, tableEntries, entryOffsets_mul hpos, List.map_map]
    have hentries : ((List.range (entryCount image)).map ((fun offset =>
        slice (slice image (entryLba image * sectorSize) (entryLba image * sectorSize +
          entryCount image * entrySize image)) offset (offset + entrySize image)) ∘
            (· * entrySize image)))
          = (List.range (entryCount image)).map fun i =>
            slice image (entryLba image * 512 + i * entrySize image)
              (entryLba image * 512 + i * entrySize image + entrySize image) := by
      refine List.map_congr_left fun i hi => ?_
      have hend := entry_end_le (entrySize image) (List.mem_range.mp hi)
      rw [Function.comp_apply, slice_slice _ (by omega), ← Nat.add_assoc]
      rfl
    rw [hentries]
    congr 1
    funext entry
    rw [isNonEmpty, bne, beq_eq_decide, decide_not]
    rfl
  · simp only [sectorSize] at hlen
    omega

/-- The event data of an accepted image are exact. -/
theorem gptExact_of_eq_ok {data : Bytes} (h : gptEventData crc32 image = .ok data) :
    GptExact image data := by
  simp only [gptEventData, bind_eq_ok, pure_eq_ok] at h
  obtain ⟨⟨header, entries⟩, hread, rfl⟩ := h
  obtain ⟨rfl, rfl, hheader, hsize, hinside⟩ := readGpt_eq_ok hread
  refine ⟨hsize, hinside, ?_, ?_, ?_, ?_⟩
  · intro entry hentry
    obtain ⟨i, hi, rfl⟩ := List.mem_map.mp hentry
    have hend := entry_end_le (entrySize image) (List.mem_range.mp hi)
    have hle : entryLba image * 512 + i * entrySize image + entrySize image ≤ image.length := by
      rw [Nat.add_assoc]
      exact (Nat.add_le_add_left hend _).trans hinside
    rw [length_slice_of_le hle, Nat.add_sub_cancel_left]
  · have hchunks := flatMap_chunks (image.drop (entryLba image * 512)) (entrySize image)
      (entryCount image)
    rw [tableEntries, ← List.flatMap_def, slice, Nat.add_sub_cancel_left, ← hchunks]
    refine List.flatMap_congr fun i _ => ?_
    rw [slice, slice, List.drop_drop]
    congr 1
    omega
  · rw [gptHeader, length_slice_of_le hheader]
  · rw [List.append_assoc]

/-- **GPT event data is exact and injective.** On every accepted image the entry size is 128 times a
power of two, the array of whole entries lies inside the image, and the data are the 92 header bytes at
LBA 1, the number of non-empty entries and these entries in array order. Two accepted images with the
same data have the same header and the same non-empty entries. -/
theorem gptEventData_exact (crc32 : Bytes → Nat) {image data : Bytes}
    (h : gptEventData crc32 image = .ok data) :
    GptExact image data ∧ ∀ image', gptEventData crc32 image' = .ok data →
      gptHeader image' = gptHeader image ∧ nonEmptyEntries image' = nonEmptyEntries image := by
  have hexact := gptExact_of_eq_ok h
  refine ⟨hexact, fun image' h' => ?_⟩
  have hexact' := gptExact_of_eq_ok h'
  have hdata := hexact'.data_eq.symm.trans hexact.data_eq
  obtain ⟨hheader, hrest⟩ :=
    List.append_inj hdata (hexact'.header_length.trans hexact.header_length.symm)
  obtain ⟨-, hflatten⟩ := List.append_inj hrest (by rw [leBytes_length, leBytes_length])
  refine ⟨hheader, ?_⟩
  -- the header holds the entry size, at which the concatenation is cut again
  have hsize : ∀ image, entrySize image = uintAt (gptHeader image) 84 4 := by
    intro image
    rw [entrySize, uintAt, uintAt, gptHeader, slice_slice _ (by decide)]
  have hsame : entrySize image' = entrySize image := by
    rw [hsize, hsize, hheader]
  obtain ⟨k, hk⟩ := hexact.entrySize_eq
  have hpos : 0 < entrySize image := by
    rw [hk]
    exact Nat.mul_pos (by decide) (Nat.two_pow_pos k)
  refine flatten_injective hpos (fun entry hentry => ?_) (fun entry hentry => ?_) hflatten
  · exact (hexact'.entries_whole entry (List.mem_of_mem_filter hentry)).trans hsame
  · exact hexact.entries_whole entry (List.mem_of_mem_filter hentry)

end

/-- A disk with one sector of header and four entries behind it, the first of them in use. -/
def sampleDisk : Bytes :=
  List.replicate 512 0x00 ++ (gptSignature ++ leBytes 4 0x10000 ++ leBytes 4 92 ++ leBytes 4 7
    ++ List.replicate 52 0x00 ++ leBytes 8 2 ++ leBytes 4 4 ++ leBytes 4 128 ++ leBytes 4 7
    ++ List.replicate 420 0x00) ++ (espGuid ++ List.replicate 112 0x00 ++ List.replicate 384 0x00)

/-- Its event data hold that entry, under any hash that gives the checksum recorded. -/
theorem gptEventData_exact_sample : ∃ data, gptEventData (fun _ => 7) sampleDisk = .ok data ∧
    GptExact sampleDisk data ∧ nonEmptyEntries sampleDisk = [espGuid ++ List.replicate 112 0x00] := by
  obtain ⟨data, hdata⟩ : ∃ data, gptEventData (fun _ => 7) sampleDisk = .ok data :=
    exists_of_isOk (by decide +kernel)
  exact ⟨data, hdata, (gptEventData_exact (fun _ => 7) hdata).1, by decide +kernel⟩

end CvmMeasure.Disk
