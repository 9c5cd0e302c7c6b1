import CvmMeasure.Pe.SectionOrder
import CvmMeasure.Pe.Signing
import Mathlib.Data.List.Find

/-! # What a signature leaves alone

A signer touches the CheckSum and the certificate entry, and appends its table behind everything else. No
reader of `pe.py` sees any of it: not the names of the sections, not their content, not the stream that is
hashed for Authenticode.

* **`SameImage`**: the readers return the same on two images, or refuse both alike;
* **`Signable`**: an unsigned image with room for a signature;
* **`Signature`**: what a signer writes, of the lengths it has to have;
* **`Signable.sameImage`**: the signed image reads like the unsigned one. -/

namespace CvmMeasure.Pe

open Binary Python

/-- Everything the tool reads out of an image. -/
structure SameImage (A B : Bytes) : Prop where
  names_eq : peSectionNames A = peSectionNames B
  extract_eq : ∀ name useVirtualSize, peExtractSection A name useVirtualSize = peExtractSection B name useVirtualSize
  stream_eq : authenticodeStream A = authenticodeStream B

/-! ## Reading around holes -/

/-- Every entry is in the file, and the raw data it declares is among the sections. -/
theorem rawSectionsLoop_mem {pe : Bytes} {secTableOff : Nat} {is : List Nat} {sections : List (Nat × Nat)}
    (h : rawSectionsLoop pe secTableOff is = .ok sections) {i : Nat} (hi : i ∈ is) :
    secTableOff + i * sectionEntrySize + sectionEntrySize ≤ pe.length ∧
      (uintAt pe (secTableOff + i * sectionEntrySize + 16) 4 ≠ 0 →
        uintAt pe (secTableOff + i * sectionEntrySize + 20) 4 ≠ 0 →
        (uintAt pe (secTableOff + i * sectionEntrySize + 20) 4,
          uintAt pe (secTableOff + i * sectionEntrySize + 16) 4) ∈ sections) := by
  induction is generalizing sections with
  | nil => cases hi
  | cons j is ih =>
    simp only [rawSectionsLoop, bind_eq_ok, sectionEntry_eq_ok, readU32_eq_ok] at h
    obtain ⟨_, ⟨rfl, hentry⟩, _, ⟨-, rfl⟩, _, ⟨-, rfl⟩, h⟩ := h
    by_cases hempty : uintAt pe (secTableOff + j * sectionEntrySize + 16) 4 = 0 ∨
        uintAt pe (secTableOff + j * sectionEntrySize + 20) 4 = 0
    · rw [if_pos hempty] at h
      rcases List.mem_cons.mp hi with rfl | hi
      · exact ⟨hentry, fun hsize hptr => absurd hempty (not_or.mpr ⟨hsize, hptr⟩)⟩
      · exact ih h hi
    · rw [if_neg hempty] at h
      simp only [bind_eq_ok, pure_eq_ok] at h
      obtain ⟨_, -, rest, hrest, rfl⟩ := h
      rcases List.mem_cons.mp hi with rfl | hi
      · exact ⟨hentry, fun _ _ => List.mem_cons_self⟩
      · obtain ⟨hle, hmem⟩ := ih hrest hi
        exact ⟨hle, fun hsize hptr => List.mem_cons_of_mem _ (hmem hsize hptr)⟩

section

variable {A B : Bytes} {holes : List (Nat × Nat)} {header : PeHeader}

/-- SizeOfImage is read alike if everything up to the CheckSum is clear. -/
theorem sizeOfImage_agree (hag : AgreeOutside A B holes) (hparsed : parsePeHeader A = .ok (some header))
    (hclear : ∀ a b, b ≤ header.coffOffset + 20 + 64 → Clear holes a b) :
    sizeOfImage B header.coffOffset = sizeOfImage A header.coffOffset := by
  obtain ⟨-, -, hsec, hcoff, hle⟩ := readPeHeader_eq_ok.mp (parsePeHeader_eq_some.mp hparsed).2
  have hlength := hag.length_le
  have hopt : readU16 A (header.coffOffset + 16) "SizeOfOptionalHeader"
      = .ok (uintAt A (header.coffOffset + 16) 2) := readU16_eq_ok.mpr ⟨hcoff, rfl⟩
  rw [sizeOfImage, sizeOfImage, hopt, readU16_agree hag hopt (hclear _ _ (by omega)), ok_bind, ok_bind]
  have hfield : optOffSizeOfImage + 4 = 60 := rfl
  simp only [hfield]
  by_cases hshort : uintAt A (header.coffOffset + 16) 2 < 60
  · rw [if_pos (Or.inl hshort), if_pos (Or.inl hshort)]
  · -- the optional header holds the field, so the file does
    have hroom : header.coffOffset + 20 + 60 ≤ A.length := by omega
    have himage : readU32 A (header.coffOffset + 20 + optOffSizeOfImage) "SizeOfImage"
        = .ok (uintAt A (header.coffOffset + 20 + optOffSizeOfImage) 4) :=
      readU32_eq_ok.mpr ⟨hroom, rfl⟩
    have hnear : header.coffOffset + 20 + optOffSizeOfImage + 4 ≤ header.coffOffset + 20 + 64 := by
      rw [Nat.add_assoc _ optOffSizeOfImage, hfield]
      omega
    rw [if_neg (by omega), if_neg (by omega), himage, readU32_agree hag himage (hclear _ _ hnear)]

/-- An entry has the same content if its raw data is in the file and clear. -/
theorem extractEntry_agree (hag : AgreeOutside A B holes) {coffOffset so : Nat}
    (himage : sizeOfImage B coffOffset = sizeOfImage A coffOffset)
    (haddr : readU32 B (so + 12) "VirtualAddress" = readU32 A (so + 12) "VirtualAddress")
    (name : String) (useVirtualSize : Bool) (virtSize : Nat) {rawSize rawPtr : Nat}
    (hraw : rawSize ≠ 0 → rawPtr ≠ 0 →
      rawPtr + rawSize ≤ A.length ∧ Clear holes rawPtr (rawPtr + rawSize)) :
    extractEntry B coffOffset so name useVirtualSize virtSize rawSize rawPtr
      = extractEntry A coffOffset so name useVirtualSize virtSize rawSize rawPtr := by
  unfold extractEntry
  by_cases hempty : rawSize = 0 ∨ rawPtr = 0
  · rw [if_pos hempty, if_pos hempty]
  · rw [not_or] at hempty
    obtain ⟨hle, hclear⟩ := hraw hempty.1 hempty.2
    have hfits : ∀ pe : Bytes, A.length ≤ pe.length → ∀ e : PyError,
        refuseIf (rawPtr + rawSize > pe.length) e = (pure () : Py Unit) :=
      fun pe hpe e => if_neg (Nat.not_lt.mpr (hle.trans hpe))
    rw [if_neg (not_or.mpr hempty), if_neg (not_or.mpr hempty), hfits A le_rfl, hfits B hag.length_le, himage,
      haddr, hag.slice_eq _ _ hle hclear]

end

/-! ## Signing -/

/-- **An unsigned image with room for a signature**: its headers are in order and cover a certificate entry
that declares no table, and nothing that is hashed reaches into the headers or behind the file. -/
structure Signable (pe : Bytes) (headers : AuthenticodeHeaders) (entryOff : Nat) : Prop where
  read : readAuthenticodeHeaders pe = .ok headers
  entry : headers.certEntryOff = some entryOff
  covered : entryOff + 8 ≤ headers.sizeOfHeaders
  unsigned : headers.certTableSize = 0
  behind : ∀ s ∈ headers.sections, headers.sizeOfHeaders ≤ s.1
  room : headers.sizeOfHeaders + (headers.sections.map Prod.snd).sum ≤ pe.length

/-- **What a signer writes.** -/
structure Signature where
  checksum : Bytes
  address : Bytes
  certificate : Bytes
  checksum_length : checksum.length = 4
  address_length : address.length = 4
  certificate_lt : certificate.length < 2 ^ 32

/-- The image with the signature in place. -/
def Signature.on (s : Signature) (pe : Bytes) (headers : AuthenticodeHeaders) (entryOff : Nat) : Bytes :=
  sign pe headers.layout.checksumOff entryOff s.checksum s.address s.certificate

/-- The two fields a signer writes. -/
def signedFields (headers : AuthenticodeHeaders) (entryOff : Nat) : List (Nat × Nat) :=
  [(headers.layout.checksumOff, headers.layout.checksumOff + 4), (entryOff, entryOff + 8)]

namespace Signable

variable {pe : Bytes} {headers : AuthenticodeHeaders} {entryOff : Nat}

/-- The CheckSum is in front of the entry, and both are in the file. -/
theorem fields_le (h : Signable pe headers entryOff) :
    headers.layout.checksumOff + 4 ≤ entryOff ∧ entryOff + 8 ≤ pe.length :=
  ⟨checksum_le_entry h.read entryOff h.entry, h.covered.trans (sizeOfHeaders_le h.read)⟩

/-- Signing changes the signed fields only, -/
theorem agreeOutside (h : Signable pe headers entryOff) (s : Signature) :
    AgreeOutside pe (s.on pe headers entryOff) (signedFields headers entryOff) := by
  obtain ⟨horder, hentry⟩ := h.fields_le
  exact agreeOutside_sign s.checksum_length (by omega) s.address_length hentry

/-- and adds the certificate table. -/
theorem length_on (h : Signable pe headers entryOff) (s : Signature) :
    (s.on pe headers entryOff).length = pe.length + s.certificate.length := by
  obtain ⟨horder, hentry⟩ := h.fields_le
  exact length_sign (by rw [s.checksum_length]; omega) s.address_length hentry

/-- What lies behind the headers is clear. -/
theorem clear_behind (h : Signable pe headers entryOff) {a : Nat} (ha : headers.sizeOfHeaders ≤ a) (b : Nat) :
    Clear (signedFields headers entryOff) a b := by
  have hcovered := h.covered
  have horder := h.fields_le.1
  simp only [Clear, signedFields, List.forall_mem_cons]
  exact ⟨Or.inr (by omega), Or.inr (by omega), fun _ hs => absurd hs List.not_mem_nil⟩

/-- These fields are holes of the headers, -/
theorem headerHoles (h : Signable pe headers entryOff) :
    HeaderHoles headers (signedFields headers entryOff) := by
  simp only [HeaderHoles, signedFields, List.forall_mem_cons]
  exact ⟨⟨entryOff, h.entry, Or.inl ⟨le_rfl, le_rfl⟩⟩, ⟨entryOff, h.entry, Or.inr ⟨le_rfl, le_rfl⟩⟩,
    fun _ hs => absurd hs List.not_mem_nil⟩

/-- **The headers of the signed image**: only the size of the certificate table is new. -/
theorem read_on (h : Signable pe headers entryOff) (s : Signature) :
    readAuthenticodeHeaders (s.on pe headers entryOff)
      = .ok { headers with certTableSize := s.certificate.length } := by
  obtain ⟨horder, hentry⟩ := h.fields_le
  have hread := readAuthenticodeHeaders_agree (h.agreeOutside s) h.read h.headerHoles
  have hsize : uintAt (s.on pe headers entryOff) (entryOff + 4) 4 = s.certificate.length :=
    uintAt_sign (by rw [s.checksum_length]; omega) s.address_length hentry s.certificate_lt
  rwa [h.entry, Option.elim_some, hsize, ← h.entry] at hread

section

variable {header : PeHeader}

/-- The optional header in front of the CheckSum is clear, and so is the section table. -/
theorem clear_headers (h : Signable pe headers entryOff) (hparsed : parsePeHeader pe = .ok (some header)) (a b : Nat)
    (hab : b ≤ header.coffOffset + 20 + 64 ∨ header.secTableOff ≤ a) :
    Clear (signedFields headers entryOff) a b := by
  obtain ⟨header', horder⟩ := exists_fieldOrder h.read
  obtain rfl := Option.some.inj (ok_unique hparsed horder.parsed)
  have hchecksum := horder.checksum_eq
  have hentry := (horder.entry_eq entryOff h.entry).2
  have hfields := h.fields_le.1
  simp only [Clear, signedFields, List.forall_mem_cons]
  refine ⟨?_, ?_, fun _ hs => absurd hs List.not_mem_nil⟩ <;> omega

/-- and parsing does not look at them. -/
theorem parsed_on (h : Signable pe headers entryOff) (hparsed : parsePeHeader pe = .ok (some header)) (s : Signature) :
    parsePeHeader (s.on pe headers entryOff) = .ok (some header) :=
  parsePeHeader_agree (h.agreeOutside s) hparsed fun a b hb => h.clear_headers hparsed a b (Or.inl hb)

/-- **The section table is in the file**, and so is the raw data of every entry, behind the headers. -/
theorem tableEntry_le (h : Signable pe headers entryOff) (hparsed : parsePeHeader pe = .ok (some header)) :
    tableEnd header ≤ pe.length ∧ ∀ i < header.numSections,
      uintAt (tableEntry pe header i) 16 4 ≠ 0 → uintAt (tableEntry pe header i) 20 4 ≠ 0 →
        headers.sizeOfHeaders ≤ uintAt (tableEntry pe header i) 20 4 ∧
          uintAt (tableEntry pe header i) 20 4 + uintAt (tableEntry pe header i) 16 4 ≤ pe.length := by
  obtain ⟨_, _, _, sections, -, -, -, -, -, -, -, hloop, hsort⟩ :=
    (readAuthenticodeHeaders_eq_ok hparsed).mp h.read
  constructor
  · cases hnum : header.numSections with
    | zero =>
      rw [tableEnd, hnum, Nat.zero_mul, Nat.add_zero]
      exact (readPeHeader_eq_ok.mp (parsePeHeader_eq_some.mp hparsed).2).2.2.2.2
    | succ n =>
      have hlast := (rawSectionsLoop_mem hloop (List.mem_range.mpr (by omega : n < header.numSections))).1
      rw [tableEnd, hnum, Nat.succ_mul]
      omega
  · intro i hi hsize hptr
    rw [uintAt_tableEntry pe header i (by decide)] at hsize hptr ⊢
    rw [uintAt_tableEntry pe header i (by decide)]
    have hmem := (rawSectionsLoop_mem hloop (List.mem_range.mpr hi)).2 hsize hptr
    have hsections : (uintAt pe (header.secTableOff + i * sectionEntrySize + 20) 4,
        uintAt pe (header.secTableOff + i * sectionEntrySize + 16) 4) ∈ headers.sections := by
      rw [hsort]
      exact (List.perm_insertionSort pairLe sections).mem_iff.mpr hmem
    exact ⟨h.behind _ hsections, (sections_inBounds h.read _ hsections).2⟩

/-- The entries of the table are those of the unsigned image. -/
theorem tableEntry_on (h : Signable pe headers entryOff) (hparsed : parsePeHeader pe = .ok (some header)) (s : Signature)
    {i : Nat} (hi : i < header.numSections) :
    tableEntry (s.on pe headers entryOff) header i = tableEntry pe header i := by
  have hle := (sectionEntry_eq_ok.mp (sectionEntry_of_table (h.tableEntry_le hparsed).1 hi)).2
  have hclear := h.clear_headers hparsed (header.secTableOff + i * sectionEntrySize)
    (header.secTableOff + i * sectionEntrySize + sectionEntrySize) (Or.inr (Nat.le_add_right _ _))
  exact ((h.agreeOutside s).slice_eq _ _ hle hclear).symm

/-- **The sections have their names.** -/
theorem peSectionNames_on (h : Signable pe headers entryOff) (hparsed : parsePeHeader pe = .ok (some header))
    (s : Signature) : peSectionNames (s.on pe headers entryOff) = peSectionNames pe := by
  have hend := (h.tableEntry_le hparsed).1
  have hentries : tableEntries (s.on pe headers entryOff) header = tableEntries pe header :=
    List.map_congr_left fun i hi => h.tableEntry_on hparsed s (List.mem_range.mp hi)
  rw [peSectionNames_of_table (h.parsed_on hparsed s) (hend.trans (h.agreeOutside s).length_le),
    peSectionNames_of_table hparsed hend, hentries]

/-- **And their content.** -/
theorem peExtractSection_on (h : Signable pe headers entryOff) (hparsed : parsePeHeader pe = .ok (some header))
    (s : Signature) (name : String) (useVirtualSize : Bool) :
    peExtractSection (s.on pe headers entryOff) name useVirtualSize = peExtractSection pe name useVirtualSize := by
  have hag := h.agreeOutside s
  obtain ⟨hend, hraw⟩ := h.tableEntry_le hparsed
  have hendB := hend.trans hag.length_le
  have hfind : ((List.range header.numSections).find? fun i =>
        entryName (tableEntry (s.on pe headers entryOff) header i) 0 = name)
      = (List.range header.numSections).find? fun i => entryName (tableEntry pe header i) 0 = name := by
    apply List.find?_congr
    intro i hi
    rw [h.tableEntry_on hparsed s (List.mem_range.mp hi)]
  rw [peExtractSection_of_table (h.parsed_on hparsed s) hendB, peExtractSection_of_table hparsed hend, hfind]
  cases hfound : (List.range header.numSections).find? fun i => entryName (tableEntry pe header i) 0 = name with
  | none => rfl
  | some i =>
    have hi := List.mem_range.mp (List.mem_of_find?_eq_some hfound)
    have hentry := h.tableEntry_on hparsed s hi
    show extractAt (s.on pe headers entryOff) header name useVirtualSize i
      = extractAt pe header name useVirtualSize i
    rw [extractAt, extractAt, hentry]
    apply extractEntry_agree hag
    · exact sizeOfImage_agree hag hparsed fun a b hb => h.clear_headers hparsed a b (Or.inl hb)
    · rw [readU32_of_table hendB hi (by decide), readU32_of_table hend hi (by decide), hentry]
    · intro hsize hptr
      obtain ⟨hbehind, hle⟩ := hraw i hi hsize hptr
      exact ⟨hle, h.clear_behind hbehind _⟩

end

/-- **The hashed stream of the signed image** is that of the unsigned one: the same spans, over the same
bytes. -/
theorem authenticodeStream_on (h : Signable pe headers entryOff) (s : Signature) :
    authenticodeStream (s.on pe headers entryOff) = authenticodeStream pe := by
  have hlength := h.length_on s
  have hroom := h.room
  have hafter : afterCertEntry (headers.layout.checksumOff + 4) headers.certEntryOff ≤ headers.sizeOfHeaders := by
    rw [h.entry]
    exact h.covered
  have hspans := authenticodeSpans_eq_ok.mpr ⟨headers, h.read, hafter, fun hbad => hbad.1 h.unsigned, rfl⟩
  -- the table ends with the file, so it begins behind everything hashed
  have hsigned : authenticodeSpans (s.on pe headers entryOff) = authenticodeSpans pe := by
    have hend : ((s.on pe headers entryOff).length : Int) - s.certificate.length
        = pe.length - headers.certTableSize := by
      rw [hlength, h.unsigned]
      omega
    rw [hspans]
    refine authenticodeSpans_eq_ok.mpr ⟨_, h.read_on s, hafter, ?_, ?_⟩
    · rintro ⟨-, hoverlap⟩
      dsimp only at hoverlap
      rw [hend, h.unsigned] at hoverlap
      omega
    · dsimp only
      rw [hend]
  rw [authenticodeStream, authenticodeStream, hsigned, hspans, ok_bind, ok_bind]
  congr 1
  refine coveredBytes_congr fun span hspan => ?_
  have hclear := authenticodeSpans_clear h.read hspans h.entry h.behind span hspan
  exact ((h.agreeOutside s).slice_eq _ _ (authenticodeSpans_inBounds hspans span hspan).2 hclear).symm

/-- **A signed image reads like the unsigned one.** -/
theorem sameImage (h : Signable pe headers entryOff) (s : Signature) :
    SameImage (s.on pe headers entryOff) pe := by
  obtain ⟨header, hparsed⟩ := exists_header h.read
  exact ⟨h.peSectionNames_on hparsed s, h.peExtractSection_on hparsed s, h.authenticodeStream_on s⟩

end Signable

end CvmMeasure.Pe
