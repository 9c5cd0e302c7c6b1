import CvmMeasure.Binary.Chunks
import CvmMeasure.Binary.Patch
import CvmMeasure.Pe.Locality
import CvmMeasure.Pe.Refusals
import Mathlib.Data.List.Dedup

/-! # The order of the section table

The extractor takes the first entry of a name, so on its own it depends on the order of the section
table. `measured_sections` does not: it refuses an image that repeats a measured name, and an entry says
the same wherever it stands.

* **`TableApart`**: the section table lies in the file, apart from the first 64 bytes and from every
  section's raw data;
* **`Reordered`**: an image that differs from another in the order of the table's entries only;
* **`measuredSections_reordered`**: the two are measured alike. -/

namespace CvmMeasure.Pe

open Binary Python

universe u

/-! ## Entries -/

/-- Entry `i` of the section table, forty bytes. -/
def tableEntry (pe : Bytes) (header : PeHeader) (i : Nat) : Bytes :=
  slice pe (header.secTableOff + i * sectionEntrySize)
    (header.secTableOff + i * sectionEntrySize + sectionEntrySize)

/-- The entries of the section table, in table order. -/
def tableEntries (pe : Bytes) (header : PeHeader) : List Bytes :=
  (List.range header.numSections).map (tableEntry pe header)

/-- Where the section table ends. -/
def tableEnd (header : PeHeader) : Nat := header.secTableOff + header.numSections * sectionEntrySize

section

variable {pe : Bytes} {header : PeHeader}

/-- The name is read off the entry alone. -/
theorem entryName_tableEntry (pe : Bytes) (header : PeHeader) (i : Nat) :
    entryName (tableEntry pe header i) 0
      = entryName pe (header.secTableOff + i * sectionEntrySize) := by
  rw [entryName, entryName, tableEntry, slice_slice _ (by rw [sectionEntrySize]; omega)]
  rfl

/-- So are the numbers. -/
theorem uintAt_tableEntry (pe : Bytes) (header : PeHeader) (i : Nat) {off width : Nat}
    (h : off + width ≤ sectionEntrySize) :
    uintAt (tableEntry pe header i) off width
      = uintAt pe (header.secTableOff + i * sectionEntrySize + off) width := by
  rw [uintAt, uintAt, tableEntry, slice_slice _ (by omega), Nat.add_assoc _ off width]

/-- Every entry of a table in the file is read in full. -/
theorem sectionEntry_of_table (hend : tableEnd header ≤ pe.length) {i : Nat}
    (hi : i < header.numSections) :
    sectionEntry pe header.secTableOff i = .ok (header.secTableOff + i * sectionEntrySize) := by
  have hle : (i + 1) * sectionEntrySize ≤ header.numSections * sectionEntrySize :=
    Nat.mul_le_mul_right _ hi
  rw [tableEnd] at hend
  exact sectionEntry_eq_ok.mpr ⟨rfl, by rw [Nat.succ_mul] at hle; omega⟩

/-- The numbers of an entry, as the loops read them. -/
theorem readU32_of_table (hend : tableEnd header ≤ pe.length) {i off : Nat}
    (hi : i < header.numSections) (hoff : off + 4 ≤ sectionEntrySize) (what : String) :
    readU32 pe (header.secTableOff + i * sectionEntrySize + off) what
      = .ok (uintAt (tableEntry pe header i) off 4) := by
  have hso := (sectionEntry_eq_ok.mp (sectionEntry_of_table hend hi)).2
  exact readU32_eq_ok.mpr ⟨by omega, uintAt_tableEntry pe header i hoff⟩

/-- The names are those in the table. -/
theorem namesLoop_of_table (hend : tableEnd header ≤ pe.length) {is : List Nat}
    (his : ∀ i ∈ is, i < header.numSections) :
    namesLoop pe header is = .ok (is.map fun i => entryName (tableEntry pe header i) 0) := by
  induction is with
  | nil => rfl
  | cons i is ih =>
    rw [namesLoop, sectionEntry_of_table hend (his i List.mem_cons_self), ok_bind,
      ih fun x hx => his x (List.mem_cons_of_mem i hx), ok_bind, List.map_cons, entryName_tableEntry]
    rfl

/-- The names of the section table are those of its entries. -/
theorem peSectionNames_of_table (hparsed : parsePeHeader pe = .ok (some header))
    (hend : tableEnd header ≤ pe.length) :
    peSectionNames pe = .ok ((tableEntries pe header).map fun entry => entryName entry 0) := by
  rw [peSectionNames, hparsed, ok_bind, tableEntries, List.map_map]
  exact namesLoop_of_table hend fun i hi => List.mem_range.mp hi

/-- What the extractor does with the entry it stops at. -/
def extractAt (pe : Bytes) (header : PeHeader) (sectionName : String) (useVirtualSize : Bool) (i : Nat) :
    Py (Option Bytes) :=
  extractEntry pe header.coffOffset (header.secTableOff + i * sectionEntrySize) sectionName
    useVirtualSize (uintAt (tableEntry pe header i) 8 4) (uintAt (tableEntry pe header i) 16 4)
    (uintAt (tableEntry pe header i) 20 4)

/-- The extractor stops at the first entry of the name. -/
theorem extractLoop_of_table (hend : tableEnd header ≤ pe.length) (name : String) (useVirtualSize : Bool)
    {is : List Nat} (his : ∀ i ∈ is, i < header.numSections) :
    extractLoop pe header name useVirtualSize is
      = (is.find? fun i => entryName (tableEntry pe header i) 0 = name).elim (pure none)
          (extractAt pe header name useVirtualSize) := by
  induction is with
  | nil => rfl
  | cons i is ih =>
    have hi := his i List.mem_cons_self
    rw [extractLoop, sectionEntry_of_table hend hi, ok_bind, readU32_of_table hend hi (by decide),
      ok_bind, readU32_of_table hend hi (by decide), ok_bind, readU32_of_table hend hi (by decide),
      ok_bind, ih fun x hx => his x (List.mem_cons_of_mem i hx), ← entryName_tableEntry]
    by_cases hname : entryName (tableEntry pe header i) 0 = name
    · rw [if_neg (not_not.mpr hname), List.find?_cons_of_pos (by simpa using hname)]
      rfl
    · rw [if_pos hname, List.find?_cons_of_neg (by simpa using hname)]

/-- A section is looked up in the table: the first one of its name counts. -/
theorem peExtractSection_of_table (hparsed : parsePeHeader pe = .ok (some header))
    (hend : tableEnd header ≤ pe.length) (name : String) (useVirtualSize : Bool) :
    peExtractSection pe name useVirtualSize
      = ((List.range header.numSections).find? fun i =>
          entryName (tableEntry pe header i) 0 = name).elim (pure none)
          (extractAt pe header name useVirtualSize) := by
  rw [peExtractSection, hparsed, ok_bind]
  exact extractLoop_of_table hend name useVirtualSize fun i hi => List.mem_range.mp hi

end

/-! ## Tables in another order -/

/-- **The section table lies in the file**, and overlaps neither the first 64 bytes nor the raw data of
a section. -/
structure TableApart (pe : Bytes) (header : PeHeader) : Prop where
  end_le : tableEnd header ≤ pe.length
  dos_le : 0 < header.numSections → 64 ≤ header.secTableOff
  raw_apart : ∀ entry ∈ tableEntries pe header, uintAt entry 16 4 ≠ 0 → uintAt entry 20 4 ≠ 0 →
    uintAt entry 20 4 + uintAt entry 16 4 ≤ header.secTableOff ∨ tableEnd header ≤ uintAt entry 20 4

/-- **`B` is `A` with the entries of its section table in another order.** -/
structure Reordered (A B : Bytes) (header : PeHeader) : Prop where
  length_eq : A.length = B.length
  outside_eq : ∀ i, i < header.secTableOff ∨ tableEnd header ≤ i → A[i]? = B[i]?
  entries_perm : (tableEntries A header).Perm (tableEntries B header)

section

variable {A B : Bytes} {header : PeHeader}

/-- In front of the table the two images agree. -/
theorem Reordered.agreeBelow (hre : Reordered A B header) : AgreeBelow A B header.secTableOff := by
  refine ⟨hre.length_eq, List.ext_getElem? fun i => ?_⟩
  rw [List.getElem?_take, List.getElem?_take]
  split
  · rename_i hi
    exact hre.outside_eq i (Or.inl hi)
  · rfl

/-- So they do on what does not meet the table. -/
theorem Reordered.slice_eq (hre : Reordered A B header) {a b : Nat}
    (h : b ≤ header.secTableOff ∨ tableEnd header ≤ a) : slice A a b = slice B a b :=
  slice_ext fun i ha hb => hre.outside_eq i (by omega)

/-- An image without sections has nothing to reorder. -/
theorem Reordered.eq_of_empty (hre : Reordered A B header) (hempty : header.numSections = 0) :
    A = B := by
  apply List.ext_getElem?
  intro i
  have hend : tableEnd header = header.secTableOff := by
    rw [tableEnd, hempty, Nat.zero_mul, Nat.add_zero]
  exact hre.outside_eq i (by omega)

/-- The names only change places. -/
theorem Reordered.names_perm (hre : Reordered A B header) :
    ((tableEntries A header).map fun entry => entryName entry 0).Perm
      ((tableEntries B header).map fun entry => entryName entry 0) :=
  hre.entries_perm.map _

/-- Of an element that occurs at most once, every order has the same first occurrence. -/
theorem find?_eq_of_perm {α : Type u} {p : α → Bool} {l l' : List α} (h : l.Perm l')
    (hone : l.countP p ≤ 1) : l.find? p = l'.find? p := by
  have hfilter : (l.filter p).Perm (l'.filter p) := h.filter p
  rw [List.countP_eq_length_filter] at hone
  rw [← List.head?_filter, ← List.head?_filter]
  match hl : l.filter p, hone with
  | [], _ =>
    rw [hl] at hfilter
    rw [hfilter.nil_eq]
  | [a], _ =>
    rw [hl] at hfilter
    rw [List.singleton_perm.mp hfilter]

/-- An entry that says the same, and reads the same raw data, has the same content. -/
theorem extractEntry_congr (hlength : A.length = B.length) {coffOffset soA soB : Nat}
    (himage : sizeOfImage A coffOffset = sizeOfImage B coffOffset)
    (haddr : readU32 A (soA + 12) "VirtualAddress" = readU32 B (soB + 12) "VirtualAddress")
    (name : String) (useVirtualSize : Bool) (virtSize : Nat) {rawSize rawPtr : Nat}
    (hraw : rawSize ≠ 0 → rawPtr ≠ 0 →
      slice A rawPtr (rawPtr + rawSize) = slice B rawPtr (rawPtr + rawSize)) :
    extractEntry A coffOffset soA name useVirtualSize virtSize rawSize rawPtr
      = extractEntry B coffOffset soB name useVirtualSize virtSize rawSize rawPtr := by
  unfold extractEntry
  by_cases hempty : rawSize = 0 ∨ rawPtr = 0
  · rw [if_pos hempty, if_pos hempty]
  · have hdata := hraw (fun h => hempty (Or.inl h)) (fun h => hempty (Or.inr h))
    rw [if_neg hempty, if_neg hempty, hlength, himage, haddr, hdata]

/-- One entry has one content, wherever it stands. -/
theorem Reordered.extractAt_eq (hre : Reordered A B header)
    (hparsed : parsePeHeader A = .ok (some header)) (hapart : TableApart A header) {i j : Nat}
    (hi : i < header.numSections) (hj : j < header.numSections)
    (hentry : tableEntry A header i = tableEntry B header j) (name : String) (useVirtualSize : Bool) :
    extractAt A header name useVirtualSize i = extractAt B header name useVirtualSize j := by
  have hendB : tableEnd header ≤ B.length := hre.length_eq ▸ hapart.end_le
  have haddr : readU32 A (header.secTableOff + i * sectionEntrySize + 12) "VirtualAddress"
      = readU32 B (header.secTableOff + j * sectionEntrySize + 12) "VirtualAddress" := by
    rw [readU32_of_table hapart.end_le hi (by decide), readU32_of_table hendB hj (by decide), hentry]
  unfold extractAt
  rw [← hentry]
  refine extractEntry_congr hre.length_eq (hre.agreeBelow.sizeOfImage_eq hparsed le_rfl) haddr name
    useVirtualSize _ fun hsize hptr => hre.slice_eq ?_
  exact hapart.raw_apart _ (List.mem_map_of_mem (List.mem_range.mpr hi)) hsize hptr

/-- **A name that occurs at most once is extracted alike** out of both images. -/
theorem Reordered.peExtractSection_eq (hre : Reordered A B header)
    (hparsed : parsePeHeader A = .ok (some header)) (hapart : TableApart A header)
    (hparsedB : parsePeHeader B = .ok (some header)) {name : String}
    (hone : ((tableEntries A header).map fun entry => entryName entry 0).count name ≤ 1)
    (useVirtualSize : Bool) :
    peExtractSection A name useVirtualSize = peExtractSection B name useVirtualSize := by
  have hendB : tableEnd header ≤ B.length := hre.length_eq ▸ hapart.end_le
  rw [peExtractSection_of_table hparsed hapart.end_le, peExtractSection_of_table hparsedB hendB]
  -- both tables hold the same entry of this name, if any
  have hfind : ((List.range header.numSections).find? fun i =>
        entryName (tableEntry A header i) 0 = name).map (tableEntry A header)
      = ((List.range header.numSections).find? fun i =>
        entryName (tableEntry B header i) 0 = name).map (tableEntry B header) := by
    have hone' : (tableEntries A header).countP (fun entry => entryName entry 0 = name) ≤ 1 := by
      rw [List.count_eq_countP, List.countP_map] at hone
      exact hone
    have h := find?_eq_of_perm hre.entries_perm hone'
    rw [tableEntries, tableEntries, List.find?_map, List.find?_map] at h
    exact h
  cases hA : (List.range header.numSections).find? fun i =>
      entryName (tableEntry A header i) 0 = name with
  | none =>
    rw [hA, Option.map_none, eq_comm, Option.map_eq_none_iff] at hfind
    rw [hfind]
    rfl
  | some i =>
    rw [hA, Option.map_some, eq_comm, Option.map_eq_some_iff] at hfind
    obtain ⟨j, hB, hentry⟩ := hfind
    rw [hB]
    exact hre.extractAt_eq hparsed hapart (List.mem_range.mp (List.mem_of_find?_eq_some hA))
      (List.mem_range.mp (List.mem_of_find?_eq_some hB)) hentry.symm name useVirtualSize

end

/-- The entries, one after the other, are the bytes of the table. -/
theorem flatten_tableEntries (pe : Bytes) (header : PeHeader) :
    (tableEntries pe header).flatten = slice pe header.secTableOff (tableEnd header) := by
  have hchunks := flatMap_chunks (slice pe header.secTableOff (tableEnd header)) sectionEntrySize
    header.numSections
  have hlength : (slice pe header.secTableOff (tableEnd header)).length
      ≤ header.numSections * sectionEntrySize := by
    rw [length_slice, tableEnd]
    omega
  rw [List.take_of_length_le hlength] at hchunks
  rw [← hchunks, tableEntries, ← List.flatMap_def]
  apply List.flatMap_congr
  intro i hi
  have hle : (i + 1) * sectionEntrySize ≤ header.numSections * sectionEntrySize :=
    Nat.mul_le_mul_right _ (List.mem_range.mp hi)
  rw [Nat.succ_mul] at hle
  rw [slice_slice _ (by rw [tableEnd]; omega), tableEntry, Nat.add_assoc]

/-- Every entry of a table in the file is forty bytes long. -/
theorem length_of_mem_tableEntries {pe : Bytes} {header : PeHeader} (hend : tableEnd header ≤ pe.length) :
    ∀ entry ∈ tableEntries pe header, entry.length = sectionEntrySize := by
  intro entry hentry
  obtain ⟨i, hi, rfl⟩ := List.mem_map.mp hentry
  have hso := (sectionEntry_eq_ok.mp (sectionEntry_of_table hend (List.mem_range.mp hi))).2
  rw [tableEntry, length_slice_of_le hso, Nat.add_sub_cancel_left]

/-- **Every order of the entries is one**: writing them back in that order reorders the table. -/
theorem reordered_patch {A : Bytes} {header : PeHeader} (hend : tableEnd header ≤ A.length)
    {entries : List Bytes} (hperm : (tableEntries A header).Perm entries) :
    Reordered A (patch A header.secTableOff entries.flatten) header := by
  have hentry : ∀ entry ∈ entries, entry.length = sectionEntrySize := fun entry hmem =>
    length_of_mem_tableEntries hend entry (hperm.symm.subset hmem)
  have hcount : entries.length = header.numSections := by
    rw [← hperm.length_eq, tableEntries, List.length_map, List.length_range]
  have hsize : entries.flatten.length = header.numSections * sectionEntrySize := by
    rw [List.length_flatten, List.map_congr_left hentry, List.map_const', List.sum_replicate_nat, hcount]
  have hroom : header.secTableOff + entries.flatten.length ≤ A.length := by
    rw [hsize]
    exact hend
  have hendB : tableEnd header ≤ (patch A header.secTableOff entries.flatten).length := by
    rw [length_patch hroom]
    exact hend
  refine ⟨(length_patch hroom).symm, fun i hi => (getElem?_patch hroom ?_).symm, ?_⟩
  · rw [hsize]
    exact hi
  · -- the table of the patched image holds the entries written
    have heq : tableEntries (patch A header.secTableOff entries.flatten) header = entries := by
      refine List.eq_iff_flatten_eq.mpr ⟨?_, ?_⟩
      · rw [flatten_tableEntries, tableEnd, ← hsize]
        exact slice_patch hroom
      · rw [List.map_congr_left (length_of_mem_tableEntries hendB), List.map_congr_left hentry,
          List.map_const', List.map_const', hcount, tableEntries, List.length_map, List.length_range]
    rw [heq]
    exact hperm

section

variable {A B : Bytes} {header : PeHeader}

/-! ## The refusals -/

/-- Which measured names are repeated does not depend on the order of the names. -/
theorem repeatedNames_eq_of_perm {names names' : List String} (h : names.Perm names') :
    repeatedNames names = repeatedNames names' := by
  have hfilter : (names.filter fun name => name ∈ ukiMeasuredSections ∧ names.count name > 1).Perm
      (names'.filter fun name => name ∈ ukiMeasuredSections ∧ names'.count name > 1) := by
    have hcount : (fun name => decide (name ∈ ukiMeasuredSections ∧ names.count name > 1))
        = fun name => decide (name ∈ ukiMeasuredSections ∧ names'.count name > 1) := by
      funext name
      rw [h.count_eq]
    rw [hcount]
    exact h.filter _
  have : Std.Total (α := String) (· ≤ ·) := ⟨String.le_total⟩
  have : IsTrans String (· ≤ ·) := ⟨fun _ _ _ => String.le_trans⟩
  unfold repeatedNames
  refine List.Perm.eq_of_pairwise (fun a b _ _ => String.le_antisymm)
    (List.pairwise_insertionSort _ _) (List.pairwise_insertionSort _ _) ?_
  exact (List.perm_insertionSort _ _).trans (hfilter.dedup.trans (List.perm_insertionSort _ _).symm)

/-- Without repeated names every measured name occurs at most once. -/
theorem count_le_one_of_repeatedNames {names : List String} (h : repeatedNames names = []) {name : String}
    (hname : name ∈ ukiMeasuredSections) : names.count name ≤ 1 := by
  by_contra hcount
  have hmem : name ∈ repeatedNames names := by
    rw [repeatedNames, List.mem_insertionSort, List.mem_dedup, List.mem_filter]
    refine ⟨List.count_pos_iff.mp (by omega), ?_⟩
    rw [decide_eq_true_eq]
    exact ⟨hname, by omega⟩
  rw [h] at hmem
  cases hmem

/-- What the refusals let pass. -/
theorem rejectUnmodelledUki_eq_ok {uki : Bytes} {register : String} {names : List String}
    (hnames : peSectionNames uki = .ok names) :
    rejectUnmodelledUki uki register = .ok () ↔
      ukiProfileSection ∉ names ∧ repeatedNames names = [] := by
  rw [rejectUnmodelledUki, hnames, ok_bind]
  simp only [bind_eq_ok, refuseIf_eq_ok, not_not]
  constructor
  · rintro ⟨_, hprofile, hrepeated⟩
    exact ⟨hprofile, hrepeated⟩
  · rintro ⟨hprofile, hrepeated⟩
    exact ⟨(), hprofile, hrepeated⟩

/-- The refusals only depend on which names there are and how often. -/
theorem rejectUnmodelledUki_congr {names names' : List String} (hA : peSectionNames A = .ok names)
    (hB : peSectionNames B = .ok names') (hperm : names.Perm names') (register : String) :
    rejectUnmodelledUki A register = rejectUnmodelledUki B register := by
  have hprofile : ukiProfileSection ∈ names ↔ ukiProfileSection ∈ names' := hperm.mem_iff
  have hrepeated := repeatedNames_eq_of_perm hperm
  unfold rejectUnmodelledUki
  rw [hA, hB, ok_bind, ok_bind, refuseIf_congr hprofile, hrepeated]

/-- **Both images are measured alike.** -/
theorem Reordered.measuredSections_eq (hre : Reordered A B header)
    (hparsed : parsePeHeader A = .ok (some header)) (hapart : TableApart A header) (register : String) :
    measuredSections A register = measuredSections B register := by
  rcases Nat.eq_zero_or_pos header.numSections with hempty | hpos
  · rw [hre.eq_of_empty hempty]
  · have hparsedB := hre.agreeBelow.parsed_right hparsed (hapart.dos_le hpos) le_rfl
    have hendB : tableEnd header ≤ B.length := hre.length_eq ▸ hapart.end_le
    rw [measuredSections, measuredSections,
      ← rejectUnmodelledUki_congr (peSectionNames_of_table hparsed hapart.end_le)
        (peSectionNames_of_table hparsedB hendB) hre.names_perm register]
    cases hreject : rejectUnmodelledUki A register with
    | error e => rw [error_bind, error_bind]
    | ok u =>
      obtain ⟨-, hrepeated⟩ :=
        (rejectUnmodelledUki_eq_ok (peSectionNames_of_table hparsed hapart.end_le)).mp hreject
      rw [ok_bind, ok_bind]
      exact measuredLoop_congr fun name hname => hre.peExtractSection_eq hparsed hapart hparsedB
        (count_le_one_of_repeatedNames hrepeated hname) true

end

/-! ## What is measured -/

/-- The content of an entry, loaded: what the file holds of it, then zeros, as many bytes as
VirtualSize. -/
theorem extractEntry_eq_some {pe bs : Bytes} {coffOffset so virtSize rawSize rawPtr : Nat}
    {name : String} (h : extractEntry pe coffOffset so name true virtSize rawSize rawPtr
      = .ok (some bs)) :
    bs = slice pe rawPtr (rawPtr + min virtSize rawSize)
        ++ List.replicate (virtSize - rawSize) 0x00 ∧ bs.length = virtSize := by
  unfold extractEntry at h
  split at h
  · cases h
  · simp only [bind_eq_ok, refuseIf_eq_ok, not_lt] at h
    obtain ⟨_, hend, h⟩ := h
    have hcontent : bs = slice pe rawPtr (rawPtr + min virtSize rawSize)
        ++ List.replicate (virtSize - rawSize) 0x00 := by
      rw [if_neg (by decide)] at h
      split at h
      · cases h
      · simp only [bind_eq_ok] at h
        obtain ⟨_, -, _, -, _, -, h⟩ := h
        split at h
        · -- the section is cut at VirtualSize
          rename_i hle
          obtain rfl := Option.some.inj (pure_eq_ok.mp h)
          rw [Nat.sub_eq_zero_of_le hle, List.replicate_zero, List.append_nil, slice, slice,
            List.take_take, Nat.add_sub_cancel_left, Nat.add_sub_cancel_left]
        · -- the section is filled up to VirtualSize
          rename_i hgt
          simp only [bind_eq_ok, pure_eq_ok, Option.some.injEq] at h
          obtain ⟨_, -, rfl⟩ := h
          rw [Nat.min_eq_right (Nat.le_of_not_le hgt)]
    refine ⟨hcontent, ?_⟩
    rw [hcontent, List.length_append, length_slice_of_le (by omega), List.length_replicate]
    omega

/-- What the loop collects: contents of sections, under names of the list and in its order. -/
theorem measuredLoop_spec {uki : Bytes} {names : List String} {sections : List (String × Bytes)}
    (h : measuredLoop uki names = .ok sections) : (sections.map Prod.fst).Sublist names ∧
      ∀ s ∈ sections, peExtractSection uki s.1 true = .ok (some s.2) := by
  induction names generalizing sections with
  | nil =>
    obtain rfl := pure_eq_ok.mp h
    exact ⟨List.Sublist.refl _, by simp⟩
  | cons name names ih =>
    simp only [measuredLoop, bind_eq_ok, pure_eq_ok] at h
    obtain ⟨content, hcontent, rest, hrest, rfl⟩ := h
    obtain ⟨hsublist, hall⟩ := ih hrest
    cases content with
    | none => exact ⟨hsublist.cons name, hall⟩
    | some bs => exact ⟨hsublist.cons_cons name, List.forall_mem_cons.mpr ⟨hcontent, hall⟩⟩

/-- A section that is measured stands in the table, and its content is read off its entry. -/
theorem exists_entry_of_extract {pe : Bytes} {header : PeHeader} {name : String} {bs : Bytes}
    (hparsed : parsePeHeader pe = .ok (some header)) (hend : tableEnd header ≤ pe.length)
    (h : peExtractSection pe name true = .ok (some bs)) :
    ∃ entry ∈ tableEntries pe header, entryName entry 0 = name ∧
      bs = slice pe (uintAt entry 20 4)
          (uintAt entry 20 4 + min (uintAt entry 8 4) (uintAt entry 16 4))
        ++ List.replicate (uintAt entry 8 4 - uintAt entry 16 4) 0x00 ∧
      bs.length = uintAt entry 8 4 := by
  rw [peExtractSection_of_table hparsed hend] at h
  cases hfind : (List.range header.numSections).find? fun i =>
      entryName (tableEntry pe header i) 0 = name with
  | none =>
    rw [hfind] at h
    cases h
  | some i =>
    rw [hfind] at h
    refine ⟨tableEntry pe header i, List.mem_map_of_mem (List.mem_of_find?_eq_some hfind), ?_,
      extractEntry_eq_some h⟩
    have hname := List.find?_some hfind
    rwa [decide_eq_true_eq] at hname

/-- **Measuring a UKI does not depend on the order of its section table.** The table lies in the file,
apart from the first 64 bytes and from the sections' raw data; then an image that differs in the order
of the entries gives the same sections, or is refused with the same `ValueError`. In what is returned
no measured name is repeated in the table, the names stand in the canonical order, and each content is
VirtualSize bytes: what the file holds of them at PointerToRawData, then zeros. -/
theorem measuredSections_reordered {A B : Bytes} {header : PeHeader}
    (hparsed : parsePeHeader A = .ok (some header)) (hapart : TableApart A header)
    (hre : Reordered A B header) (register : String) :
    measuredSections A register = measuredSections B register ∧
    ((∃ sections, measuredSections A register = .ok sections) ∨
      ∃ message, measuredSections A register = .error (.valueError message)) ∧
    ∀ sections, measuredSections A register = .ok sections →
      (∀ name ∈ ukiMeasuredSections,
        ((tableEntries A header).map fun entry => entryName entry 0).count name ≤ 1) ∧
      (sections.map Prod.fst).Sublist ukiMeasuredSections ∧
      ∀ s ∈ sections, ∃ entry ∈ tableEntries A header, entryName entry 0 = s.1 ∧
        s.2 = slice A (uintAt entry 20 4)
            (uintAt entry 20 4 + min (uintAt entry 8 4) (uintAt entry 16 4))
          ++ List.replicate (uintAt entry 8 4 - uintAt entry 16 4) 0x00 ∧
        s.2.length = uintAt entry 8 4 := by
  refine ⟨hre.measuredSections_eq hparsed hapart register,
    (onlyValueError_measuredSections A register).ok_or_valueError, fun sections h => ?_⟩
  simp only [measuredSections, bind_eq_ok] at h
  obtain ⟨_, hreject, hloop⟩ := h
  obtain ⟨-, hrepeated⟩ :=
    (rejectUnmodelledUki_eq_ok (peSectionNames_of_table hparsed hapart.end_le)).mp hreject
  obtain ⟨hsublist, hall⟩ := measuredLoop_spec hloop
  exact ⟨fun name hname => count_le_one_of_repeatedNames hrepeated hname, hsublist,
    fun s hs => exists_entry_of_extract hparsed hapart.end_le (hall s hs)⟩

/-- The small UKI with its two entries exchanged. -/
theorem measuredSections_reordered_sample :
    measuredSections (sampleUki [0x01, 0x02, 0x03, 0x04]) "PCR 11"
      = measuredSections (patch (sampleUki [0x01, 0x02, 0x03, 0x04]) 200
          (sampleSectionEntry ".linux" 4 0x2000 284 ++ sampleSectionEntry ".text" 4 0x1000 280))
        "PCR 11" := by
  have hparsed : parsePeHeader (sampleUki [0x01, 0x02, 0x03, 0x04]) = .ok (some ⟨68, 2, 200⟩) := by
    decide +kernel
  have hentries : tableEntries (sampleUki [0x01, 0x02, 0x03, 0x04]) ⟨68, 2, 200⟩
      = [sampleSectionEntry ".text" 4 0x1000 280, sampleSectionEntry ".linux" 4 0x2000 284] := by
    decide +kernel
  have hend : tableEnd ⟨68, 2, 200⟩ ≤ (sampleUki [0x01, 0x02, 0x03, 0x04]).length := by
    decide +kernel
  have hapart : TableApart (sampleUki [0x01, 0x02, 0x03, 0x04]) ⟨68, 2, 200⟩ := by
    refine ⟨hend, fun _ => by decide, ?_⟩
    rw [hentries]
    decide +kernel
  have hperm : (tableEntries (sampleUki [0x01, 0x02, 0x03, 0x04]) ⟨68, 2, 200⟩).Perm
      [sampleSectionEntry ".linux" 4 0x2000 284, sampleSectionEntry ".text" 4 0x1000 280] := by
    rw [hentries]
    exact List.Perm.swap _ _ _
  have h := (measuredSections_reordered hparsed hapart (reordered_patch hend hperm) "PCR 11").1
  rw [List.flatten_cons, List.flatten_singleton] at h
  exact h

end CvmMeasure.Pe
