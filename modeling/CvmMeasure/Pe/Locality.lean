import CvmMeasure.Pe.Uki

/-! # What the section reader depends on

Two images of one length that agree on their headers, and on the raw data of the measured sections,
cannot be told apart by the section extractor: every read of `pe.py` outside those ranges is a length
check.

* **`SameHeaders`**: the two images agree up to a bound that covers the headers and section table;
* **`SameMeasuredRanges`**: they agree on the raw data of every measured section;
* **`peExtractSection_congr`**, **`measuredSections_congr`**: then the extractor answers the same. -/

namespace CvmMeasure.Pe

open Binary Python

/-! ## Single reads -/

/-- Two buffers of one length that agree on their first `h` bytes. -/
structure AgreeBelow (A B : Bytes) (h : Nat) : Prop where
  length_eq : A.length = B.length
  take_eq : A.take h = B.take h

section Reads

variable {A B : Bytes} {h : Nat}

/-- Below the bound the same bytes are sliced, -/
theorem AgreeBelow.slice_eq (hag : AgreeBelow A B h) {a b : Nat} (hb : b ≤ h) :
    slice A a b = slice B a b :=
  slice_congr hag.take_eq hb

/-- and the same numbers read, -/
theorem AgreeBelow.uintAt_eq (hag : AgreeBelow A B h) {off w : Nat} (hle : off + w ≤ h) :
    uintAt A off w = uintAt B off w := by
  rw [uintAt, uintAt, hag.slice_eq hle]

/-- a `UINT16` with its bounds check, -/
theorem AgreeBelow.readU16_eq (hag : AgreeBelow A B h) {off : Nat} (hle : off + 2 ≤ h)
    (what : String) : readU16 A off what = readU16 B off what := by
  rw [readU16, readU16, hag.length_eq, hag.uintAt_eq hle]

/-- a `UINT32`, -/
theorem AgreeBelow.readU32_eq (hag : AgreeBelow A B h) {off : Nat} (hle : off + 4 ≤ h)
    (what : String) : readU32 A off what = readU32 B off what := by
  rw [readU32, readU32, hag.length_eq, hag.uintAt_eq hle]

/-- the place of a section header, -/
theorem AgreeBelow.sectionEntry_eq (hag : AgreeBelow A B h) (secTableOff i : Nat) :
    sectionEntry A secTableOff i = sectionEntry B secTableOff i := by
  rw [sectionEntry, sectionEntry, hag.length_eq]

/-- and the name in it. -/
theorem AgreeBelow.entryName_eq (hag : AgreeBelow A B h) {so : Nat} (hle : so + 8 ≤ h) :
    entryName A so = entryName B so := by
  rw [entryName, entryName, hag.slice_eq hle]

end Reads

/-- Two bytes that are there are read as their number, -/
theorem readU16_eq_ok {pe : Bytes} {off v : Nat} {what : String} :
    readU16 pe off what = .ok v ↔ off + 2 ≤ pe.length ∧ v = uintAt pe off 2 := by
  simp only [readU16, bind_eq_ok, refuseIf_eq_ok, pure_eq_ok, Nat.not_lt]
  constructor
  · rintro ⟨_, hle, rfl⟩
    exact ⟨hle, rfl⟩
  · rintro ⟨hle, rfl⟩
    exact ⟨(), hle, rfl⟩

/-- and so are four. -/
theorem readU32_eq_ok {pe : Bytes} {off v : Nat} {what : String} :
    readU32 pe off what = .ok v ↔ off + 4 ≤ pe.length ∧ v = uintAt pe off 4 := by
  simp only [readU32, bind_eq_ok, refuseIf_eq_ok, pure_eq_ok, Nat.not_lt]
  constructor
  · rintro ⟨_, hle, rfl⟩
    exact ⟨hle, rfl⟩
  · rintro ⟨hle, rfl⟩
    exact ⟨(), hle, rfl⟩

/-- A section header is there if the file does not end before it does. -/
theorem sectionEntry_eq_ok {pe : Bytes} {secTableOff i so : Nat} :
    sectionEntry pe secTableOff i = .ok so ↔
      so = secTableOff + i * sectionEntrySize ∧ so + sectionEntrySize ≤ pe.length := by
  simp only [sectionEntry, bind_eq_ok, refuseIf_eq_ok, pure_eq_ok, Nat.not_lt]
  constructor
  · rintro ⟨_, hle, rfl⟩
    exact ⟨rfl, hle⟩
  · rintro ⟨rfl, hle⟩
    exact ⟨(), hle, rfl⟩

/-! ## Headers -/

/-- What a parsed header says of the image. -/
theorem parsePeHeader_eq_some {pe : Bytes} {header : PeHeader} :
    parsePeHeader pe = .ok (some header) ↔ hasPeSignatures pe = true ∧
      readPeHeader pe = .ok header := by
  unfold parsePeHeader
  by_cases hsig : hasPeSignatures pe = true
  · rw [if_pos hsig]
    cases readPeHeader pe <;> simp [hsig, Functor.map, Except.map]
  · rw [if_neg hsig]
    simp [hsig]

/-- The header fields, as read. -/
theorem readPeHeader_eq_ok {pe : Bytes} {header : PeHeader} :
    readPeHeader pe = .ok header ↔ header.coffOffset = peOffset pe + 4 ∧
      header.numSections = uintAt pe (header.coffOffset + 2) 2 ∧
      header.secTableOff = header.coffOffset + 20 + uintAt pe (header.coffOffset + 16) 2 ∧
      header.coffOffset + 18 ≤ pe.length ∧ header.secTableOff ≤ pe.length := by
  simp only [readPeHeader, bind_eq_ok, readU16_eq_ok, refuseIf_eq_ok, pure_eq_ok, Nat.not_lt]
  constructor
  · rintro ⟨_, ⟨-, rfl⟩, _, ⟨hopt, rfl⟩, _, hsec, rfl⟩
    exact ⟨rfl, rfl, rfl, hopt, hsec⟩
  · obtain ⟨coff, num, sec⟩ := header
    rintro ⟨hcoff, hnum, hsec, hlen, hle⟩
    simp only at hcoff hnum hsec hlen hle
    subst hcoff hnum hsec
    exact ⟨_, ⟨by omega, rfl⟩, _, ⟨by omega, rfl⟩, (), hle, rfl⟩

section Parse

variable {A B : Bytes} {header : PeHeader} {h : Nat}

/-- The optional header ends where the section table begins. -/
theorem secTableOff_eq (hparsed : parsePeHeader A = .ok (some header)) :
    header.secTableOff = header.coffOffset + 20 + uintAt A (header.coffOffset + 16) 2 :=
  (readPeHeader_eq_ok.mp (parsePeHeader_eq_some.mp hparsed).2).2.2.1

/-- Images that agree below their section table have one header. -/
theorem AgreeBelow.parsed_right (hag : AgreeBelow A B h) (hparsed : parsePeHeader A = .ok (some header))
    (hdos : 64 ≤ h) (hsech : header.secTableOff ≤ h) : parsePeHeader B = .ok (some header) := by
  obtain ⟨hsig, hread⟩ := parsePeHeader_eq_some.mp hparsed
  obtain ⟨hcoff, hnum, hsec, hlen, hle⟩ := readPeHeader_eq_ok.mp hread
  -- every header field lies in the agreement
  have hoff : peOffset A = peOffset B := hag.uintAt_eq (by omega)
  have hmz : A.take 2 = B.take 2 := by
    have := hag.slice_eq (a := 0) (b := 2) (by omega)
    simpa [slice] using this
  have hpe : slice A (peOffset A) (peOffset A + 4) = slice B (peOffset B) (peOffset B + 4) := by
    rw [← hoff]
    exact hag.slice_eq (by omega)
  have hsigB : hasPeSignatures B = hasPeSignatures A := by
    rw [hasPeSignatures, hasPeSignatures, hag.length_eq, hmz, hpe, hoff]
  refine parsePeHeader_eq_some.mpr ⟨hsigB.trans hsig, readPeHeader_eq_ok.mpr ⟨?_, ?_, ?_, ?_, ?_⟩⟩
  · rw [hcoff, hoff]
  · rw [hnum]
    exact hag.uintAt_eq (by omega)
  · rw [hsec, hag.uintAt_eq (by omega)]
  · rw [← hag.length_eq]
    exact hlen
  · rw [← hag.length_eq]
    exact hle

/-- They declare one SizeOfImage. -/
theorem AgreeBelow.sizeOfImage_eq (hag : AgreeBelow A B h)
    (hparsed : parsePeHeader A = .ok (some header)) (hsech : header.secTableOff ≤ h) :
    sizeOfImage A header.coffOffset = sizeOfImage B header.coffOffset := by
  have hopt := secTableOff_eq hparsed
  have hread : readU16 A (header.coffOffset + 16) "SizeOfOptionalHeader"
      = readU16 B (header.coffOffset + 16) "SizeOfOptionalHeader" :=
    hag.readU16_eq (by omega) _
  unfold sizeOfImage
  rw [hread]
  -- the size of the optional header is itself read in the agreement
  cases hB : readU16 B (header.coffOffset + 16) "SizeOfOptionalHeader" with
  | error e => rfl
  | ok size =>
    obtain ⟨-, hsize⟩ := readU16_eq_ok.mp (hread.trans hB)
    simp only [ok_bind, hag.length_eq]
    split
    · rfl
    · -- the field lies in the optional header
      rename_i hfield
      rw [hag.readU32_eq]
      simp only [optOffSizeOfImage] at hfield ⊢
      omega

end Parse

/-- **The two images have the same headers**: they agree on the first 64 bytes, up to the end of the
section table and on the first SizeOfHeaders bytes. -/
structure SameHeaders (A B : Bytes) (header : PeHeader) (h : Nat) : Prop extends
    AgreeBelow A B h where
  parsed : parsePeHeader A = .ok (some header)
  dos_le : 64 ≤ h
  table_le : header.secTableOff + header.numSections * sectionEntrySize ≤ h
  headers_le : ∀ size, readU32 A (header.coffOffset + 20 + 60) "SizeOfHeaders" = .ok size → size ≤ h

section Headers

variable {A B : Bytes} {header : PeHeader} {h : Nat}

/-- The section table starts below the bound. -/
theorem SameHeaders.secTableOff_le (hs : SameHeaders A B header h) : header.secTableOff ≤ h := by
  have := hs.table_le
  omega

/-- The optional header ends where the section table begins. -/
theorem SameHeaders.optional_eq (hs : SameHeaders A B header h) :
    header.secTableOff = header.coffOffset + 20 + uintAt A (header.coffOffset + 16) 2 :=
  secTableOff_eq hs.parsed

/-- The other image has the same header. -/
theorem SameHeaders.parsed_right (hs : SameHeaders A B header h) :
    parsePeHeader B = .ok (some header) :=
  hs.toAgreeBelow.parsed_right hs.parsed hs.dos_le hs.secTableOff_le

/-- The section table lies in the agreement. -/
theorem SameHeaders.entry_le (hs : SameHeaders A B header h) {i : Nat}
    (hi : i < header.numSections) :
    header.secTableOff + i * sectionEntrySize + sectionEntrySize ≤ h := by
  have htable := hs.table_le
  rw [sectionEntrySize] at htable ⊢
  omega

/-- Two readers of one section-table entry agree if they agree on entries that lie in the agreement. -/
theorem SameHeaders.sectionEntry_bind_eq (hs : SameHeaders A B header h) {α : Type} {f g : Nat → Py α}
    {i : Nat} (hi : i < header.numSections)
    (hfg : header.secTableOff + i * sectionEntrySize + 40 ≤ h →
      header.secTableOff + i * sectionEntrySize + sectionEntrySize ≤ B.length →
      f (header.secTableOff + i * sectionEntrySize) = g (header.secTableOff + i * sectionEntrySize)) :
    (sectionEntry A header.secTableOff i >>= f) = (sectionEntry B header.secTableOff i >>= g) := by
  rw [hs.toAgreeBelow.sectionEntry_eq]
  cases hso : sectionEntry B header.secTableOff i with
  | error e => rfl
  | ok so =>
    obtain ⟨rfl, hend⟩ := sectionEntry_eq_ok.mp hso
    rw [ok_bind, ok_bind]
    exact hfg (hs.entry_le hi) hend

/-- The same headers have the same SizeOfImage, -/
theorem SameHeaders.sizeOfImage_eq (hs : SameHeaders A B header h) :
    sizeOfImage A header.coffOffset = sizeOfImage B header.coffOffset :=
  hs.toAgreeBelow.sizeOfImage_eq hs.parsed hs.secTableOff_le

/-- the same section names, -/
theorem SameHeaders.namesLoop_eq (hs : SameHeaders A B header h) {is : List Nat}
    (his : ∀ i ∈ is, i < header.numSections) : namesLoop A header is = namesLoop B header is := by
  induction is with
  | nil => rfl
  | cons i is ih =>
    rw [namesLoop, namesLoop, ih fun x hx => his x (List.mem_cons_of_mem i hx)]
    refine hs.sectionEntry_bind_eq (his i List.mem_cons_self) fun hle _ => ?_
    rw [hs.toAgreeBelow.entryName_eq (by omega)]

/-- Both images list the same section names. -/
theorem SameHeaders.peSectionNames_eq (hs : SameHeaders A B header h) :
    peSectionNames A = peSectionNames B := by
  rw [peSectionNames, peSectionNames, hs.parsed, hs.parsed_right, ok_bind, ok_bind]
  exact hs.namesLoop_eq fun i hi => List.mem_range.mp hi

/-- Both images have the same non-empty raw sections. -/
theorem SameHeaders.rawSectionsLoop_eq (hs : SameHeaders A B header h) {is : List Nat}
    (his : ∀ i ∈ is, i < header.numSections) :
    rawSectionsLoop A header.secTableOff is = rawSectionsLoop B header.secTableOff is := by
  induction is with
  | nil => rfl
  | cons i is ih =>
    rw [rawSectionsLoop, rawSectionsLoop, ih fun x hx => his x (List.mem_cons_of_mem i hx)]
    refine hs.sectionEntry_bind_eq (his i List.mem_cons_self) fun hle _ => ?_
    rw [hs.toAgreeBelow.readU32_eq (by omega), hs.toAgreeBelow.readU32_eq (by omega),
      hs.toAgreeBelow.entryName_eq (by omega), hs.length_eq]

end Headers

/-! ## Section contents -/

/-- **The two images hold the same measured sections**: they agree on the raw data range of every
section-table entry that carries a measured name. -/
def SameMeasuredRanges (A B : Bytes) (header : PeHeader) : Prop :=
  ∀ i < header.numSections,
    let so := header.secTableOff + i * sectionEntrySize
    entryName A so ∈ ukiMeasuredSections →
      slice A (uintAt A (so + 20) 4) (uintAt A (so + 20) 4 + uintAt A (so + 16) 4)
        = slice B (uintAt A (so + 20) 4) (uintAt A (so + 20) 4 + uintAt A (so + 16) 4)

section Contents

variable {A B : Bytes} {header : PeHeader} {h : Nat}

/-- and the same content of a section, if its raw data is the same. -/
theorem SameHeaders.extractEntry_eq (hs : SameHeaders A B header h) {so : Nat} (hso : so + 40 ≤ h)
    (name : String) (useVirtualSize : Bool) (virtSize : Nat) {rawSize rawPtr : Nat}
    (hraw : slice A rawPtr (rawPtr + rawSize) = slice B rawPtr (rawPtr + rawSize)) :
    extractEntry A header.coffOffset so name useVirtualSize virtSize rawSize rawPtr
      = extractEntry B header.coffOffset so name useVirtualSize virtSize rawSize rawPtr := by
  rw [extractEntry, extractEntry, hs.length_eq, hraw, hs.sizeOfImage_eq,
    hs.toAgreeBelow.readU32_eq (by omega)]

/-- So a measured name is looked up alike. -/
theorem SameHeaders.extractLoop_eq (hs : SameHeaders A B header h)
    (hranges : SameMeasuredRanges A B header) {name : String} (hname : name ∈ ukiMeasuredSections)
    (useVirtualSize : Bool) {is : List Nat} (his : ∀ i ∈ is, i < header.numSections) :
    extractLoop A header name useVirtualSize is = extractLoop B header name useVirtualSize is := by
  induction is with
  | nil => rfl
  | cons i is ih =>
    have hi := his i List.mem_cons_self
    rw [extractLoop, extractLoop, ih fun x hx => his x (List.mem_cons_of_mem i hx)]
    refine hs.sectionEntry_bind_eq hi fun hle hend => ?_
    have hrange := hranges i hi
    have hlen := hs.length_eq
    rw [sectionEntrySize] at hle hend hrange ⊢
    -- both images read the fields of the entry alike
    have hread : ∀ off what, off + 4 ≤ header.secTableOff + i * 40 + 40 →
        readU32 A off what = .ok (uintAt A off 4) ∧ readU32 B off what = .ok (uintAt A off 4) := by
      intro off what hoff
      refine ⟨readU32_eq_ok.mpr ⟨by omega, rfl⟩, readU32_eq_ok.mpr ⟨by omega, ?_⟩⟩
      exact hs.toAgreeBelow.uintAt_eq (by omega)
    simp only [ok_bind, (hread (header.secTableOff + i * 40 + 8) _ (by omega)).1,
      (hread (header.secTableOff + i * 40 + 16) _ (by omega)).1,
      (hread (header.secTableOff + i * 40 + 20) _ (by omega)).1,
      (hread (header.secTableOff + i * 40 + 8) _ (by omega)).2,
      (hread (header.secTableOff + i * 40 + 16) _ (by omega)).2,
      (hread (header.secTableOff + i * 40 + 20) _ (by omega)).2]
    rw [← hs.toAgreeBelow.entryName_eq (by omega)]
    -- an entry of another name is skipped by both
    by_cases hn : entryName A (header.secTableOff + i * 40) = name
    · rw [if_neg (not_not.mpr hn), if_neg (not_not.mpr hn)]
      exact hs.extractEntry_eq (by omega) name useVirtualSize _ (hrange (hn ▸ hname))
    · rw [if_pos hn, if_pos hn]

/-- **The extractor answers the same for every measured name.** -/
theorem SameHeaders.peExtractSection_eq (hs : SameHeaders A B header h)
    (hranges : SameMeasuredRanges A B header) {name : String} (hname : name ∈ ukiMeasuredSections)
    (useVirtualSize : Bool) :
    peExtractSection A name useVirtualSize = peExtractSection B name useVirtualSize := by
  rw [peExtractSection, peExtractSection, hs.parsed, hs.parsed_right, ok_bind, ok_bind]
  exact hs.extractLoop_eq hranges hname useVirtualSize fun i hi => List.mem_range.mp hi

/-- What is measured only depends on what the extractor answers. -/
theorem measuredLoop_congr {names : List String}
    (h : ∀ name ∈ names, peExtractSection A name true = peExtractSection B name true) :
    measuredLoop A names = measuredLoop B names := by
  induction names with
  | nil => rfl
  | cons name names ih =>
    rw [measuredLoop, measuredLoop, h name List.mem_cons_self,
      ih fun x hx => h x (List.mem_cons_of_mem name hx)]

/-- **Both images measure the same sections**, or are refused alike. -/
theorem SameHeaders.measuredSections_eq (hs : SameHeaders A B header h)
    (hranges : SameMeasuredRanges A B header) (register : String) :
    measuredSections A register = measuredSections B register := by
  rw [measuredSections, measuredSections, rejectUnmodelledUki, rejectUnmodelledUki,
    hs.peSectionNames_eq, measuredLoop_congr fun name hname => hs.peExtractSection_eq hranges hname true]

/-- Both images have the same command line. -/
theorem SameHeaders.ukiCmdline_eq (hs : SameHeaders A B header h)
    (hranges : SameMeasuredRanges A B header) : ukiCmdline A = ukiCmdline B := by
  rw [ukiCmdline, ukiCmdline, hs.peExtractSection_eq hranges (by decide)]

end Contents

end CvmMeasure.Pe
