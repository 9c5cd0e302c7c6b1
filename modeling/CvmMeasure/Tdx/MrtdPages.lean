import CvmMeasure.Binary.Chunks
import CvmMeasure.Binary.PrefixCode
import CvmMeasure.Tdx.Mrtd

/-! # The MRTD stream, page by page

The reference for what MRTD measures: guest pages, each added once and, where its section is measured,
extended in sixteen chunks. The tool computes it in one flat loop per region.

* **`MeasureRecord`**: one call of the TDX module, and the bytes it hashes;
* **`GuestPage`**: one page with its address and, if measured, its content;
* **`pageStream_injective`**: the bytes hashed determine the pages;
* **`initMemoryRegion_pages`**: the flat loop hashes the pages of its region. -/

namespace CvmMeasure.Tdx

open Binary Python

/-! ## Records -/

/-- One call of the TDX module that feeds MRTD. -/
inductive MeasureRecord where
  | pageAdd (gpa : Nat)
  | mrExtend (gpa : Nat) (chunk : Bytes)
  deriving DecidableEq, Repr

namespace MeasureRecord

/-- The bytes one call hashes. -/
def encode : MeasureRecord → Bytes
  | pageAdd gpa =>
    asciiBytes "MEM.PAGE.ADD" ++ List.replicate 4 0x00 ++ leBytes 8 gpa ++ List.replicate 104 0x00
  | mrExtend gpa chunk =>
    asciiBytes "MR.EXTEND" ++ List.replicate 7 0x00 ++ leBytes 8 gpa ++ List.replicate 104 0x00
      ++ chunk

/-- An address of 64 bits, and a chunk of 256 bytes. -/
def Valid : MeasureRecord → Prop
  | pageAdd gpa => gpa < 2 ^ 64
  | mrExtend gpa chunk => gpa < 2 ^ 64 ∧ chunk.length = mrExtendChunkSize

/-- The content a call hashes. -/
def chunk : MeasureRecord → Bytes
  | pageAdd _ => []
  | mrExtend _ chunk => chunk

/-- The record opens a page. -/
def IsPageAdd : MeasureRecord → Prop
  | pageAdd _ => True
  | mrExtend _ _ => False

/-- A page that is added takes one buffer of the hash, -/
theorem encode_pageAdd_length (gpa : Nat) :
    (pageAdd gpa).encode.length = extensionBufferSize := by
  simp [encode, asciiBytes, extensionBufferSize]

/-- and a chunk that is extended takes three. -/
theorem encode_mrExtend_length {gpa : Nat} {chunk : Bytes} (h : chunk.length = mrExtendChunkSize) :
    (mrExtend gpa chunk).encode.length = 3 * extensionBufferSize := by
  simp [encode, asciiBytes, extensionBufferSize, h, mrExtendChunkSize]

/-- No record is empty. -/
theorem encode_ne_nil (r : MeasureRecord) : r.encode ≠ [] := by
  cases r <;> simp [encode, asciiBytes]

/-- Which call a record is shows in its second byte. -/
theorem not_pageAdd_and_mrExtend {gpa gpa' : Nat} {chunk s : Bytes}
    (h : (pageAdd gpa).encode <+: s) (h' : (mrExtend gpa' chunk).encode <+: s) : False := by
  have hE : HasAt s 0 (asciiBytes "ME") := by
    refine List.IsPrefix.trans ?_ h
    exact ⟨_, rfl⟩
  have hR : HasAt s 0 (asciiBytes "MR") := by
    refine List.IsPrefix.trans ?_ h'
    exact ⟨_, rfl⟩
  exact absurd (hE.eq_of_length_eq hR rfl) (by decide)

/-- The records are a prefix code. -/
theorem prefixFree : PrefixFree Valid encode := by
  intro a b s ha hb hpa hpb
  cases a with
  | pageAdd gpa =>
    cases b with
    | pageAdd gpa' =>
      have heq : (pageAdd gpa).encode = (pageAdd gpa').encode :=
        HasAt.eq_of_length_eq (o := 0) hpa hpb
          ((encode_pageAdd_length gpa).trans (encode_pageAdd_length gpa').symm)
      simp only [encode, List.append_cancel_left_eq, List.append_cancel_right_eq] at heq
      exact congrArg pageAdd (leBytes_inj ha hb heq)
    | mrExtend gpa' chunk' => exact (not_pageAdd_and_mrExtend hpa hpb).elim
  | mrExtend gpa chunk =>
    cases b with
    | pageAdd gpa' => exact (not_pageAdd_and_mrExtend hpb hpa).elim
    | mrExtend gpa' chunk' =>
      have heq : (mrExtend gpa chunk).encode = (mrExtend gpa' chunk').encode :=
        HasAt.eq_of_length_eq (o := 0) hpa hpb
          ((encode_mrExtend_length ha.2).trans (encode_mrExtend_length hb.2).symm)
      simp only [encode, List.append_assoc, List.append_cancel_left_eq] at heq
      obtain ⟨haddr, hrest⟩ := List.append_inj heq (by rw [leBytes_length, leBytes_length])
      rw [leBytes_inj ha.1 hb.1 haddr, List.append_cancel_left hrest]

end MeasureRecord

/-! ## Pages -/

/-- One guest page: its address and, if it is measured, its content. -/
structure GuestPage where
  address : Nat
  content : Option Bytes
  deriving DecidableEq, Repr

namespace GuestPage

/-- An aligned 64-bit address, and a page of content. -/
structure WellFormed (p : GuestPage) : Prop where
  aligned : p.address % pageSize = 0
  address_lt : p.address < 2 ^ 64
  length_content : ∀ c ∈ p.content, c.length = pageSize

/-- The extends of a page of content: sixteen chunks, at the addresses they have in the page. -/
def chunkRecords (address : Nat) (c : Bytes) : List MeasureRecord :=
  (List.range 16).map fun j =>
    .mrExtend (address + j * mrExtendChunkSize)
      (slice c (j * mrExtendChunkSize) (j * mrExtendChunkSize + mrExtendChunkSize))

/-- What the TDX module does behind adding the page. -/
def tail (p : GuestPage) : List MeasureRecord :=
  match p.content with
  | none => []
  | some c => chunkRecords p.address c

/-- What the TDX module does for a page: add it, then extend its chunks if it is measured. -/
def records (p : GuestPage) : List MeasureRecord := .pageAdd p.address :: p.tail

/-- A page has sixteen chunks. -/
theorem length_chunkRecords (address : Nat) (c : Bytes) : (chunkRecords address c).length = 16 := by
  rw [chunkRecords, List.length_map, List.length_range]

/-- The chunks of a page, one after the other, are its content. -/
theorem flatMap_chunkRecords {address : Nat} {c : Bytes} (h : c.length = pageSize) :
    (chunkRecords address c).flatMap MeasureRecord.chunk = c := by
  rw [chunkRecords, List.flatMap_map]
  simp only [MeasureRecord.chunk]
  rw [flatMap_chunks, List.take_of_length_le (by rw [h]; decide)]

/-- Behind its first record, no record of a page adds a page. -/
theorem tail_not_pageAdd (p : GuestPage) : ∀ r ∈ p.tail, ¬ r.IsPageAdd := by
  intro r hr
  unfold tail at hr
  split at hr
  · simp at hr
  · obtain ⟨j, -, rfl⟩ := List.mem_map.mp hr
    exact id

/-- The records of a well-formed page are valid. -/
theorem WellFormed.records_valid {p : GuestPage} (hp : p.WellFormed) : ∀ r ∈ p.records, r.Valid := by
  obtain ⟨haligned, hlt, hcontent⟩ := hp
  intro r hr
  rcases List.mem_cons.mp hr with rfl | hr
  · exact hlt
  · unfold tail at hr
    split at hr
    · simp at hr
    · rename_i c hc
      obtain ⟨j, hj, rfl⟩ := List.mem_map.mp hr
      have hlen := hcontent c hc
      have hj' := List.mem_range.mp hj
      simp only [pageSize] at haligned hlen
      simp only [MeasureRecord.Valid, mrExtendChunkSize]
      -- the last chunk starts 3840 bytes into an aligned page
      refine ⟨by omega, ?_⟩
      rw [length_slice_of_le (by rw [hlen]; omega)]
      omega

/-- A page is determined by the record that opens it and those behind it. -/
theorem WellFormed.ext_of_records {p q : GuestPage} (hp : p.WellFormed) (hq : q.WellFormed)
    (hhead : MeasureRecord.pageAdd p.address = .pageAdd q.address) (htail : p.tail = q.tail) :
    p = q := by
  obtain ⟨address, content⟩ := p
  obtain ⟨address', content'⟩ := q
  obtain rfl := MeasureRecord.pageAdd.inj hhead
  simp only [tail] at htail
  have hlen := congrArg List.length htail
  have hchunks := congrArg (List.flatMap MeasureRecord.chunk) htail
  -- sixteen extends tell a measured page from one that is only added
  cases content with
  | none =>
    cases content' with
    | none => rfl
    | some c' => simp [length_chunkRecords] at hlen
  | some c =>
    cases content' with
    | none => simp [length_chunkRecords] at hlen
    | some c' =>
      simp only [flatMap_chunkRecords (hp.length_content c rfl),
        flatMap_chunkRecords (hq.length_content c' rfl)] at hchunks
      rw [hchunks]

end GuestPage

/-- The bytes MRTD hashes for some pages. -/
def pageStream (pages : List GuestPage) : Bytes :=
  (pages.flatMap GuestPage.records).flatMap MeasureRecord.encode

/-- **The bytes hashed determine the pages**: their addresses, which of them are measured, and the
content of those that are. -/
theorem pageStream_injective {pages pages' : List GuestPage} (h : ∀ p ∈ pages, p.WellFormed)
    (h' : ∀ p ∈ pages', p.WellFormed) (heq : pageStream pages = pageStream pages') :
    pages = pages' := by
  have hvalid : ∀ {ps : List GuestPage}, (∀ p ∈ ps, p.WellFormed) →
      ∀ r ∈ ps.flatMap GuestPage.records, r.Valid := by
    intro ps hps r hr
    obtain ⟨p, hp, hr⟩ := List.mem_flatMap.mp hr
    exact (hps p hp).records_valid r hr
  -- the bytes determine the records
  have hrecords := MeasureRecord.prefixFree.flatMap_injective (fun r _ => r.encode_ne_nil)
    (hvalid h) (hvalid h') heq
  -- and the records, opened page by page by a PAGE.ADD, determine the pages
  exact markedBlocks_injective MeasureRecord.IsPageAdd (fun p : GuestPage => .pageAdd p.address)
    GuestPage.tail (fun _ => trivial)
    GuestPage.tail_not_pageAdd (fun _ _ hp hq => hp.ext_of_records hq) h h' hrecords

/-- The pages of a guest range, in address order, with their part of the content if they are
measured. -/
def pagesOf (gpr : GuestPhysicalRegion) (measured : Bool) (content : Bytes) : List GuestPage :=
  (List.range (gpr.length / pageSize)).map fun k =>
    { address := gpr.start + k * pageSize
      content :=
        if measured then some (slice content (k * pageSize) (k * pageSize + pageSize)) else none }

/-! ## The flat loop -/

/-- What is packed is a number of eight bytes. -/
theorem packQ_eq_ok {n : Nat} {bs : Bytes} (h : packQ n = .ok bs) : n < 2 ^ 64 ∧ bs = leBytes 8 n := by
  simp only [packQ, bind_eq_ok, refuseIf_eq_ok, pure_eq_ok] at h
  obtain ⟨_, hlt, rfl⟩ := h
  exact ⟨Nat.lt_of_not_le hlt, rfl⟩

/-- What a page adds to the stream is its record, -/
theorem pageAdd_eq_ok {gpa : Nat} {bs : Bytes} (h : pageAdd gpa = .ok bs) :
    bs = (MeasureRecord.pageAdd gpa).encode ∧ (MeasureRecord.pageAdd gpa).Valid := by
  simp only [pageAdd, bind_eq_ok, pure_eq_ok] at h
  obtain ⟨addr, haddr, rfl⟩ := h
  obtain ⟨hlt, rfl⟩ := packQ_eq_ok haddr
  exact ⟨rfl, hlt⟩

/-- and what a chunk adds is its own. -/
theorem mrExtend_eq_ok {gpa : Nat} {chunk bs : Bytes} (h : mrExtend gpa chunk = .ok bs) :
    bs = (MeasureRecord.mrExtend gpa chunk).encode ∧ (MeasureRecord.mrExtend gpa chunk).Valid := by
  simp only [mrExtend, bind_eq_ok, refuseIf_eq_ok, pure_eq_ok, not_not] at h
  obtain ⟨_, hlen, addr, haddr, rfl⟩ := h
  obtain ⟨hlt, rfl⟩ := packQ_eq_ok haddr
  refine ⟨?_, hlt, hlen⟩
  rw [MeasureRecord.encode, List.append_assoc _ (List.take _ _), List.take_append_drop]

/-- The calls of one round of the loop, at byte `i` of the region. -/
def recordsAt (region : MaterialRegion) (measured : Bool) (i : Nat) : List MeasureRecord :=
  (if i % pageSize = 0 then [.pageAdd (region.gpr.start + i)] else []) ++
    (if measured then
      [.mrExtend (region.gpr.start + i) (slice region.hostBuffer i (i + mrExtendChunkSize))] else [])

variable {region : MaterialRegion} {measured : Bool}

/-- One round of the loop adds the records of its byte. -/
theorem measureStep_eq_ok {i : Nat} {bs : Bytes} (h : measureStep region measured i = .ok bs) :
    bs = (recordsAt region measured i).flatMap MeasureRecord.encode ∧
      ∀ r ∈ recordsAt region measured i, r.Valid := by
  unfold recordsAt
  -- whether the round starts a page, and whether the region is measured
  by_cases hpage : i % pageSize = 0
  · cases measured with
    | true =>
      simp only [measureStep, hpage, if_true, bind_eq_ok, pure_eq_ok] at h
      obtain ⟨page, hadd, chunk, hextend, rfl⟩ := h
      obtain ⟨rfl, hvalid⟩ := pageAdd_eq_ok hadd
      obtain ⟨rfl, hvalid'⟩ := mrExtend_eq_ok hextend
      simp [hpage, hvalid, hvalid']
    | false =>
      simp only [measureStep, hpage, if_true, Bool.false_eq_true, if_false, bind_eq_ok, pure_eq_ok] at h
      obtain ⟨page, hadd, _, rfl, rfl⟩ := h
      obtain ⟨rfl, hvalid⟩ := pageAdd_eq_ok hadd
      simp [hpage, hvalid]
  · cases measured with
    | true =>
      simp only [measureStep, hpage, if_true, if_false, bind_eq_ok, pure_eq_ok] at h
      obtain ⟨_, rfl, chunk, hextend, rfl⟩ := h
      obtain ⟨rfl, hvalid⟩ := mrExtend_eq_ok hextend
      simp [hpage, hvalid]
    | false =>
      simp only [measureStep, hpage, Bool.false_eq_true, if_false, bind_eq_ok, pure_eq_ok] at h
      obtain ⟨_, rfl, _, rfl, rfl⟩ := h
      simp [hpage]

/-- The loop adds those of all of them. -/
theorem measureLoop_eq_ok {is : List Nat} {bs : Bytes} (h : measureLoop region measured is = .ok bs) :
    bs = (is.flatMap (recordsAt region measured)).flatMap MeasureRecord.encode ∧
      ∀ r ∈ is.flatMap (recordsAt region measured), r.Valid := by
  induction is generalizing bs with
  | nil =>
    obtain rfl := pure_eq_ok.mp h
    simp
  | cons i is ih =>
    simp only [measureLoop, bind_eq_ok, pure_eq_ok] at h
    obtain ⟨first, hfirst, rest, hrest, rfl⟩ := h
    obtain ⟨rfl, hvalid⟩ := measureStep_eq_ok hfirst
    obtain ⟨rfl, hvalids⟩ := ih hrest
    rw [List.flatMap_cons, List.flatMap_append]
    exact ⟨rfl, List.forall_mem_append.mpr ⟨hvalid, hvalids⟩⟩

/-- The offsets of an aligned region are sixteen for each page. -/
theorem rangeStep_eq {length : Nat} (h : length % pageSize = 0) :
    rangeStep length mrExtendChunkSize = (List.range (length / pageSize)).flatMap fun k =>
      (List.range 16).map fun j => k * pageSize + j * mrExtendChunkSize := by
  -- sixteen chunks to a page
  have hcount : (length + mrExtendChunkSize - 1) / mrExtendChunkSize = length / pageSize * 16 := by
    simp only [pageSize, mrExtendChunkSize] at h ⊢
    omega
  rw [rangeStep, hcount, range_mul, List.map_flatMap]
  refine List.flatMap_congr fun k _ => ?_
  rw [List.map_map]
  refine List.map_congr_left fun j _ => ?_
  simp only [Function.comp_apply, pageSize, mrExtendChunkSize]
  omega

/-- The extend of one round, if there is one. -/
def extendAt (region : MaterialRegion) (measured : Bool) (i : Nat) : List MeasureRecord :=
  if measured then
    [.mrExtend (region.gpr.start + i) (slice region.hostBuffer i (i + mrExtendChunkSize))]
  else []

/-- Of the sixteen rounds of a page only the first adds it. -/
theorem recordsAt_round (region : MaterialRegion) (measured : Bool) (k : Nat) {j : Nat} (hj : j < 16) :
    recordsAt region measured (k * pageSize + j * mrExtendChunkSize) =
      (if j = 0 then [.pageAdd (region.gpr.start + k * pageSize)] else []) ++
        extendAt region measured (k * pageSize + j * mrExtendChunkSize) := by
  have hpage : (k * pageSize + j * mrExtendChunkSize) % pageSize = 0 ↔ j = 0 := by
    simp only [pageSize, mrExtendChunkSize]
    omega
  rw [recordsAt, extendAt]
  by_cases hj0 : j = 0
  · rw [if_pos (hpage.mpr hj0), if_pos hj0, hj0, Nat.zero_mul, Nat.add_zero]
  · rw [if_neg (mt hpage.mp hj0), if_neg hj0]

/-- The `k`-th page of a region. -/
def pageAt (region : MaterialRegion) (measured : Bool) (k : Nat) : GuestPage :=
  { address := region.gpr.start + k * pageSize
    content :=
      if measured then
        some (slice region.hostBuffer (k * pageSize) (k * pageSize + pageSize))
      else none }

/-- The extends of the rounds of a page are those of the page. -/
theorem flatMap_extendAt (region : MaterialRegion) (measured : Bool) (k : Nat) :
    ((List.range 16).flatMap fun j =>
        extendAt region measured (k * pageSize + j * mrExtendChunkSize))
      = (pageAt region measured k).tail := by
  cases measured with
  | false => simp [extendAt, pageAt, GuestPage.tail]
  | true =>
    simp only [extendAt, if_true, pageAt, GuestPage.tail, GuestPage.chunkRecords]
    rw [← List.map_eq_flatMap]
    refine List.map_congr_left fun j hj => ?_
    have hj' := List.mem_range.mp hj
    rw [slice_slice _ (by simp only [pageSize, mrExtendChunkSize]; omega), Nat.add_assoc, Nat.add_assoc]

/-- The sixteen rounds of the `k`-th page make the calls of that page. -/
theorem flatMap_recordsAt (region : MaterialRegion) (measured : Bool) (k : Nat) :
    ((List.range 16).flatMap fun j =>
        recordsAt region measured (k * pageSize + j * mrExtendChunkSize))
      = (pageAt region measured k).records := by
  have hrange : List.range 16 = 0 :: (List.range 15).map Nat.succ := List.range_succ_eq_map
  -- behind the first round no round adds a page
  have hrest : ((List.range 15).map Nat.succ).flatMap (fun j =>
        recordsAt region measured (k * pageSize + j * mrExtendChunkSize))
      = ((List.range 15).map Nat.succ).flatMap fun j =>
        extendAt region measured (k * pageSize + j * mrExtendChunkSize) := by
    refine List.flatMap_congr fun j hj => ?_
    obtain ⟨j, hj', rfl⟩ := List.mem_map.mp hj
    have hlt := List.mem_range.mp hj'
    rw [recordsAt_round region measured k (by omega), if_neg (Nat.succ_ne_zero j), List.nil_append]
  rw [GuestPage.records, ← flatMap_extendAt, hrange, List.flatMap_cons, List.flatMap_cons, hrest,
    recordsAt_round region measured k (by omega), if_pos rfl]
  rfl

/-- The loop's calls over an aligned region are those of its pages. -/
theorem flatMap_rangeStep (region : MaterialRegion) (measured : Bool)
    (h : region.gpr.length % pageSize = 0) :
    (rangeStep region.gpr.length mrExtendChunkSize).flatMap (recordsAt region measured)
      = (pagesOf region.gpr measured region.hostBuffer).flatMap GuestPage.records := by
  rw [rangeStep_eq h, List.flatMap_assoc, pagesOf, List.flatMap_map]
  refine List.flatMap_congr fun k _ => ?_
  rw [List.flatMap_map]
  exact flatMap_recordsAt region measured k

/-- **The flat loop hashes the pages of its region**: if `init_memory_region` returns, the region is
aligned, its content has its length if it is measured, and the bytes hashed are those of its pages. -/
theorem initMemoryRegion_pages {bs : Bytes} (h : initMemoryRegion false region = .ok bs) :
    region.gpr.start % pageSize = 0 ∧ region.gpr.length % pageSize = 0 ∧
      (measuresBytes false region = true → region.hostBuffer.length = region.gpr.length) ∧
      bs = pageStream (pagesOf region.gpr (measuresBytes false region) region.hostBuffer) ∧
      ∀ p ∈ pagesOf region.gpr (measuresBytes false region) region.hostBuffer, p.WellFormed := by
  simp only [initMemoryRegion, bind_eq_ok, refuseIf_eq_ok, not_and, not_not] at h
  obtain ⟨_, hcontent, _, hstart, _, hlength, hloop⟩ := h
  obtain ⟨rfl, hvalid⟩ := measureLoop_eq_ok hloop
  rw [flatMap_rangeStep region _ hlength] at hvalid ⊢
  refine ⟨hstart, hlength, fun hm => (hcontent hm).symm, rfl, fun p hp => ?_⟩
  -- each page has its own PAGE.ADD among the calls, whose address fits
  have hadd := hvalid (.pageAdd p.address) (List.mem_flatMap.mpr ⟨p, hp, List.mem_cons_self⟩)
  obtain ⟨k, hk, rfl⟩ := List.mem_map.mp hp
  have hk' := List.mem_range.mp hk
  refine ⟨?_, hadd, fun c hc => ?_⟩
  · simp only [pageSize] at hstart ⊢
    omega
  · by_cases hm : measuresBytes false region = true
    · simp only [hm, if_true, Option.mem_some_iff] at hc
      rw [← hc, length_slice_of_le, Nat.add_sub_cancel_left]
      have hlen := hcontent hm
      simp only [pageSize] at hlength hk' ⊢
      omega
    · simp [hm] at hc

end CvmMeasure.Tdx
