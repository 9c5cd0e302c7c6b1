import CvmMeasure.Binary.Memory
import CvmMeasure.Pe.SectionOrder

/-! # Sections in memory

systemd-stub measures the sections of a UKI in memory, where the firmware's loader has put them. The tool
reads the file. This module describes the loader and the stub, and compares.

* **`entrySegment`**: what the loader maps for an entry of the section table;
* **`stubSections`**: what the stub measures in a memory;
* **`measuredSections_loaded`**: `measured_sections` returns what the stub measures, whatever the memory held
  before and in whatever order the sections were loaded. -/

namespace CvmMeasure.Pe

open Binary Python

/-! ## The loader -/

/-- Whether an entry declares content: a size in the file, a place in the file, and a size in memory. -/
def HasContent (entry : Bytes) : Prop :=
  uintAt entry 16 4 ≠ 0 ∧ uintAt entry 20 4 ≠ 0 ∧ uintAt entry 8 4 ≠ 0

instance (entry : Bytes) : Decidable (HasContent entry) := inferInstanceAs (Decidable (_ ∧ _ ∧ _))

/-- How many bytes of a section come from the file: at most SizeOfRawData and at most VirtualSize, and none
without a place in the file. -/
def storedSize (entry : Bytes) : Nat :=
  if uintAt entry 20 4 = 0 then 0 else min (uintAt entry 8 4) (uintAt entry 16 4)

/-- **What the loader maps for an entry**: at VirtualAddress what the file stores, then zeros, as many bytes
as VirtualSize. -/
def entrySegment (pe entry : Bytes) : Segment UInt8 where
  addr := uintAt entry 12 4
  data := slice pe (uintAt entry 20 4) (uintAt entry 20 4 + storedSize entry)
    ++ List.replicate (uintAt entry 8 4 - storedSize entry) 0x00

/-! ## The stub -/

/-- What the stub measures of a name: the memory of the section that carries it, if there is one. -/
def stubSection (memory : Nat → UInt8) (table : List Bytes) (name : String) : Option (String × Bytes) := do
  let entry ← table.find? fun entry => entryName entry 0 = name
  if HasContent entry then some (name, readRange memory (uintAt entry 12 4) (uintAt entry 8 4)) else none

/-- **What the stub measures**: the sections of the canonical names, in that order. -/
def stubSections (memory : Nat → UInt8) (table : List Bytes) : List (String × Bytes) :=
  ukiMeasuredSections.filterMap (stubSection memory table)

/-- Of the sections in the table, none shares memory with a section that is measured. -/
def MeasuredApart (pe : Bytes) (table : List Bytes) : Prop :=
  ∀ entry ∈ table, entryName entry 0 ∈ ukiMeasuredSections →
    ∀ other ∈ table, other = entry ∨ (entrySegment pe entry).Apart (entrySegment pe other)

/-! ## What the tool reads -/

section

variable {pe bs : Bytes} {header : PeHeader} {name : String}

/-- Names are read from section headers that are there. -/
theorem namesLoop_entries {is : List Nat} {names : List String} (h : namesLoop pe header is = .ok names) :
    ∀ i ∈ is, header.secTableOff + i * sectionEntrySize + sectionEntrySize ≤ pe.length := by
  induction is generalizing names with
  | nil => exact fun _ hi => absurd hi List.not_mem_nil
  | cons i is ih =>
    simp only [namesLoop, bind_eq_ok] at h
    obtain ⟨so, hso, rest, hrest, -⟩ := h
    obtain ⟨rfl, hle⟩ := sectionEntry_eq_ok.mp hso
    exact List.forall_mem_cons.mpr ⟨hle, ih hrest⟩

/-- A table whose names are listed lies in the file. -/
theorem tableEnd_le_of_names {names : List String} (hparsed : parsePeHeader pe = .ok (some header))
    (hnames : peSectionNames pe = .ok names) : tableEnd header ≤ pe.length := by
  rw [peSectionNames, hparsed, ok_bind] at hnames
  rw [tableEnd]
  cases hnum : header.numSections with
  | zero =>
    rw [Nat.zero_mul, Nat.add_zero]
    exact (readPeHeader_eq_ok.mp (parsePeHeader_eq_some.mp hparsed).2).2.2.2.2
  | succ n =>
    have hlast := namesLoop_entries hnames n (List.mem_range.mpr (by omega))
    rw [Nat.succ_mul]
    omega

/-- Where the section lies in memory, if the optional header says how much memory there is. -/
def InImage (pe entry : Bytes) (coffOffset : Nat) : Prop :=
  ∀ size, sizeOfImage pe coffOffset = .ok (some size) → uintAt entry 12 4 + uintAt entry 8 4 ≤ size

section

variable {entry : Bytes}

/-- A section with raw data stores as much of it as its virtual size takes. -/
theorem storedSize_of_ptr (hptr : uintAt entry 20 4 ≠ 0) :
    storedSize entry = min (uintAt entry 8 4) (uintAt entry 16 4) := if_neg hptr

/-- With its raw data in the file, a section is loaded in full. -/
theorem length_entrySegment (hptr : uintAt entry 20 4 ≠ 0)
    (hfile : uintAt entry 20 4 + uintAt entry 16 4 ≤ pe.length) :
    (entrySegment pe entry).data.length = uintAt entry 8 4 := by
  have hsize := storedSize_of_ptr hptr
  rw [entrySegment, List.length_append, length_slice_of_le (by omega), List.length_replicate]
  omega

/-- A section smaller in memory than in the file is cut. -/
theorem entrySegment_cut (hptr : uintAt entry 20 4 ≠ 0) (hle : uintAt entry 8 4 ≤ uintAt entry 16 4) :
    (entrySegment pe entry).data
      = (slice pe (uintAt entry 20 4) (uintAt entry 20 4 + uintAt entry 16 4)).take (uintAt entry 8 4) := by
  rw [entrySegment, storedSize_of_ptr hptr, Nat.min_eq_left hle, Nat.sub_self, List.replicate_zero, List.append_nil,
    slice, slice, List.take_take, Nat.add_sub_cancel_left, Nat.add_sub_cancel_left, Nat.min_eq_left hle]

/-- And one larger in memory is filled up with zeros. -/
theorem entrySegment_fill (hptr : uintAt entry 20 4 ≠ 0) (hle : uintAt entry 16 4 ≤ uintAt entry 8 4) :
    (entrySegment pe entry).data
      = slice pe (uintAt entry 20 4) (uintAt entry 20 4 + uintAt entry 16 4)
        ++ List.replicate (uintAt entry 8 4 - uintAt entry 16 4) 0x00 := by
  rw [entrySegment, storedSize_of_ptr hptr, Nat.min_eq_right hle]

end

/-- **What the tool reads of an entry is what the loader maps for it**, inside SizeOfImage. -/
theorem extractAt_loaded (hend : tableEnd header ≤ pe.length) {i : Nat} (hi : i < header.numSections)
    {content : Option Bytes} (h : extractAt pe header name true i = .ok content) :
    if HasContent (tableEntry pe header i) then
      content = some (entrySegment pe (tableEntry pe header i)).data ∧
        (entrySegment pe (tableEntry pe header i)).data.length = uintAt (tableEntry pe header i) 8 4 ∧
        InImage pe (tableEntry pe header i) header.coffOffset
    else content = none := by
  have hoff : 12 + 4 ≤ sectionEntrySize := by decide
  have haddr := readU32_of_table hend hi hoff "VirtualAddress"
  unfold extractAt at h
  generalize tableEntry pe header i = entry at *
  unfold extractEntry at h
  split at h
  · -- no content in the file
    rename_i hnone
    rw [if_neg fun hhas : HasContent entry => hnone.elim hhas.1 hhas.2.1]
    exact (pure_eq_ok.mp h).symm
  · rename_i hstored
    obtain ⟨hsize, hptr⟩ := not_or.mp hstored
    rw [bind_eq_ok] at h
    obtain ⟨_, hfile, h⟩ := h
    rw [refuseIf_eq_ok, Nat.not_lt] at hfile
    rw [if_neg (by decide)] at h
    split at h
    · -- nor in memory
      rename_i hvirt
      rw [if_neg fun hhas : HasContent entry => hhas.2.2 hvirt]
      exact (pure_eq_ok.mp h).symm
    · rename_i hvirt
      rw [if_pos ⟨hsize, hptr, hvirt⟩]
      simp only [bind_eq_ok, refuseIf_eq_ok] at h
      obtain ⟨virtAddr, hvirtAddr, imageSize, himageSize, _, hfits, h⟩ := h
      obtain rfl := ok_unique haddr hvirtAddr
      have hin : InImage pe entry header.coffOffset := by
        intro size himage
        obtain rfl := ok_unique himage himageSize
        simpa using hfits
      refine ⟨?_, length_entrySegment hptr hfile, hin⟩
      split at h
      · rename_i hle
        rw [← pure_eq_ok.mp h, entrySegment_cut hptr hle]
      · rename_i hgt
        simp only [bind_eq_ok, pure_eq_ok] at h
        obtain ⟨_, -, rfl⟩ := h
        rw [entrySegment_fill hptr (Nat.le_of_not_le hgt)]

/-- The extractor and the stub look at the same entry. -/
theorem peExtractSection_loaded (hparsed : parsePeHeader pe = .ok (some header))
    (hend : tableEnd header ≤ pe.length) {content : Option Bytes}
    (h : peExtractSection pe name true = .ok content) :
    match (tableEntries pe header).find? fun entry => entryName entry 0 = name with
    | none => content = none
    | some entry =>
      if HasContent entry then
        content = some (entrySegment pe entry).data ∧
          (entrySegment pe entry).data.length = uintAt entry 8 4 ∧ InImage pe entry header.coffOffset
      else content = none := by
  rw [peExtractSection_of_table hparsed hend] at h
  rw [tableEntries, List.find?_map]
  have hsame : ((fun entry => decide (entryName entry 0 = name)) ∘ tableEntry pe header)
      = fun i => decide (entryName (tableEntry pe header i) 0 = name) := rfl
  rw [hsame]
  cases hfind : (List.range header.numSections).find? fun i =>
      entryName (tableEntry pe header i) 0 = name with
  | none =>
    rw [hfind] at h
    exact (pure_eq_ok.mp h).symm
  | some i =>
    rw [hfind] at h
    exact extractAt_loaded hend (List.mem_range.mp (List.mem_of_find?_eq_some hfind)) h

/-! ## What the stub reads -/

/-- The memory holds each measured section that is loaded in full. -/
def Holds (pe : Bytes) (table : List Bytes) (memory : Nat → UInt8) : Prop :=
  ∀ entry ∈ table, entryName entry 0 ∈ ukiMeasuredSections →
    (entrySegment pe entry).data.length = uintAt entry 8 4 →
      readRange memory (uintAt entry 12 4) (uintAt entry 8 4) = (entrySegment pe entry).data

/-- Loading leaves such a memory, whatever it held before and in whatever order the sections are loaded. -/
theorem holds_load {table order : List Bytes} (hapart : MeasuredApart pe table) (horder : order.Perm table)
    (memory : Nat → UInt8) : Holds pe table (load memory (order.map (entrySegment pe))) := by
  intro entry hentry hname hlength
  rw [← hlength]
  apply readRange_load (s := entrySegment pe entry)
  · rw [List.forall_mem_map]
    intro other hother
    exact (hapart entry hentry hname other (horder.mem_iff.mp hother)).imp (congrArg _) id
  · exact List.mem_map_of_mem (horder.mem_iff.mpr hentry)

/-- The stub measures of a name what the extractor reads. -/
theorem stubSection_loaded (hparsed : parsePeHeader pe = .ok (some header)) (hend : tableEnd header ≤ pe.length)
    {memory : Nat → UInt8} (hmemory : Holds pe (tableEntries pe header) memory)
    (hname : name ∈ ukiMeasuredSections) {content : Option Bytes}
    (h : peExtractSection pe name true = .ok content) :
    stubSection memory (tableEntries pe header) name = content.map (fun bs => (name, bs)) ∧
      ∀ bs ∈ content, ∃ entry ∈ tableEntries pe header, entryName entry 0 = name ∧
        bs.length = uintAt entry 8 4 ∧ InImage pe entry header.coffOffset := by
  have hread := peExtractSection_loaded hparsed hend h
  rw [stubSection]
  cases hfind : (tableEntries pe header).find? fun entry => entryName entry 0 = name with
  | none =>
    rw [hfind] at hread
    obtain rfl := hread
    exact ⟨rfl, fun _ hbs => absurd hbs (Option.not_mem_none _)⟩
  | some entry =>
    rw [hfind] at hread
    have hmem := List.mem_of_find?_eq_some hfind
    have hentry : entryName entry 0 = name := by
      have := List.find?_some hfind
      rwa [decide_eq_true_eq] at this
    rw [Option.bind_eq_bind, Option.bind_some]
    by_cases hhas : HasContent entry
    · simp only [if_pos hhas] at hread ⊢
      obtain ⟨rfl, hlength, hin⟩ := hread
      rw [hmemory entry hmem (hentry ▸ hname) hlength]
      refine ⟨rfl, fun bs hbs => ?_⟩
      obtain rfl := Option.some.inj hbs
      exact ⟨entry, hmem, hentry, hlength, hin⟩
    · simp only [if_neg hhas] at hread ⊢
      obtain rfl := hread
      exact ⟨rfl, fun _ hbs => absurd hbs (Option.not_mem_none _)⟩

/-- The loop over the names collects what the stub measures of them. -/
theorem measuredLoop_loaded (hparsed : parsePeHeader pe = .ok (some header))
    (hend : tableEnd header ≤ pe.length) {memory : Nat → UInt8}
    (hmemory : Holds pe (tableEntries pe header) memory)
    {names : List String} (hnames : ∀ name ∈ names, name ∈ ukiMeasuredSections)
    {sections : List (String × Bytes)} (h : measuredLoop pe names = .ok sections) :
    names.filterMap (stubSection memory (tableEntries pe header)) = sections ∧
      ∀ s ∈ sections, ∃ entry ∈ tableEntries pe header, entryName entry 0 = s.1 ∧
        s.2.length = uintAt entry 8 4 ∧ InImage pe entry header.coffOffset := by
  induction names generalizing sections with
  | nil =>
    obtain rfl := pure_eq_ok.mp h
    exact ⟨rfl, fun _ hs => absurd hs List.not_mem_nil⟩
  | cons name names ih =>
    obtain ⟨hname, hnames⟩ := List.forall_mem_cons.mp hnames
    simp only [measuredLoop, bind_eq_ok, pure_eq_ok] at h
    obtain ⟨content, hcontent, rest, hrest, rfl⟩ := h
    obtain ⟨hstub, hall⟩ := ih hnames hrest
    obtain ⟨hsection, hentry⟩ := stubSection_loaded hparsed hend hmemory hname hcontent
    rw [List.filterMap_cons, hsection, hstub]
    cases content with
    | none => exact ⟨rfl, hall⟩
    | some bs => exact ⟨rfl, List.forall_mem_cons.mpr ⟨hentry bs rfl, hall⟩⟩

end

end CvmMeasure.Pe
