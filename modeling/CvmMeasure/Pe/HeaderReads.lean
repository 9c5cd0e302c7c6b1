import CvmMeasure.Binary.Patch
import CvmMeasure.Pe.Coverage

/-! # What the header reader sees of an image

Whatever `pe_authenticode_digest` reads out of the headers of an image it accepts, it reads alike out of
an image that only differs in the CheckSum, in the Certificate Table entry and behind the end of the
first (`readAuthenticodeHeaders_agree`). The fields never alias: the COFF header and the magic lie in
front of the CheckSum, NumberOfRvaAndSizes between the two, the section table behind both. -/

namespace CvmMeasure.Pe

open Binary Python

section Reads

variable {A B : Bytes} {holes : List (Nat × Nat)}

/-- A `UINT16` outside the holes is read alike, -/
theorem readU16_agree (hag : AgreeOutside A B holes) {off v : Nat} {what : String}
    (hA : readU16 A off what = .ok v) (hclear : Clear holes off (off + 2)) :
    readU16 B off what = .ok v := by
  obtain ⟨hle, rfl⟩ := readU16_eq_ok.mp hA
  exact readU16_eq_ok.mpr ⟨hle.trans hag.length_le, hag.uintAt_eq hle hclear⟩

/-- and so is a `UINT32`, -/
theorem readU32_agree (hag : AgreeOutside A B holes) {off v : Nat} {what : String}
    (hA : readU32 A off what = .ok v) (hclear : Clear holes off (off + 4)) :
    readU32 B off what = .ok v := by
  obtain ⟨hle, rfl⟩ := readU32_eq_ok.mp hA
  exact readU32_eq_ok.mpr ⟨hle.trans hag.length_le, hag.uintAt_eq hle hclear⟩

/-- and the place of a section header. -/
theorem sectionEntry_agree (hag : AgreeOutside A B holes) {secTableOff i so : Nat}
    (hA : sectionEntry A secTableOff i = .ok so) : sectionEntry B secTableOff i = .ok so := by
  obtain ⟨rfl, hle⟩ := sectionEntry_eq_ok.mp hA
  exact sectionEntry_eq_ok.mpr ⟨rfl, hle.trans hag.length_le⟩

/-- The header parses alike if everything in front of the optional header's CheckSum is clear. -/
theorem parsePeHeader_agree (hag : AgreeOutside A B holes) {header : PeHeader}
    (hA : parsePeHeader A = .ok (some header))
    (hclear : ∀ a b, b ≤ header.coffOffset + 20 + 64 → Clear holes a b) :
    parsePeHeader B = .ok (some header) := by
  obtain ⟨hsig, hread⟩ := parsePeHeader_eq_some.mp hA
  obtain ⟨hcoff, hnum, hsec, hlen, hle⟩ := readPeHeader_eq_ok.mp hread
  have hlength := hag.length_le
  simp only [hasPeSignatures, Bool.and_eq_true, decide_eq_true_eq, beq_iff_eq] at hsig
  obtain ⟨⟨⟨hdos, hmz⟩, hfit⟩, hpe⟩ := hsig
  have hoff : peOffset A = peOffset B := hag.uintAt_eq (by omega) (hclear _ _ (by omega))
  have htake : B.take 2 = mzSignature := by
    have hslice := hag.slice_eq 0 2 (by omega) (hclear _ _ (by omega))
    simp only [slice, List.drop_zero, Nat.sub_zero] at hslice
    rw [← hslice, hmz]
  have hsigB : slice B (peOffset A) (peOffset A + 4) = peSignature := by
    rw [← hag.slice_eq _ _ hfit (hclear _ _ (by omega)), hpe]
  have hnumB : uintAt A (header.coffOffset + 2) 2 = uintAt B (header.coffOffset + 2) 2 :=
    hag.uintAt_eq (by omega) (hclear _ _ (by omega))
  have hoptB : uintAt A (header.coffOffset + 16) 2 = uintAt B (header.coffOffset + 16) 2 :=
    hag.uintAt_eq (by omega) (hclear _ _ (by omega))
  refine parsePeHeader_eq_some.mpr ⟨?_, readPeHeader_eq_ok.mpr ⟨?_, ?_, ?_, ?_, ?_⟩⟩
  · simp only [hasPeSignatures, Bool.and_eq_true, decide_eq_true_eq, beq_iff_eq, ← hoff]
    exact ⟨⟨⟨by omega, htake⟩, by omega⟩, hsigB⟩
  · rw [hcoff, hoff]
  · rw [hnum, hnumB]
  · rw [hsec, hoptB]
  · omega
  · omega

/-- The raw sections are read alike if the section table is clear. -/
theorem rawSectionsLoop_agree (hag : AgreeOutside A B holes) {secTableOff : Nat}
    (hclear : ∀ a b, secTableOff ≤ a → Clear holes a b) {is : List Nat}
    {sections : List (Nat × Nat)} (hA : rawSectionsLoop A secTableOff is = .ok sections) :
    rawSectionsLoop B secTableOff is = .ok sections := by
  induction is generalizing sections with
  | nil => exact hA
  | cons i is ih =>
    simp only [rawSectionsLoop, bind_eq_ok] at hA ⊢
    obtain ⟨so, hso, rawSize, hsize, rawPtr, hptr, hA⟩ := hA
    have hle : secTableOff ≤ so := by
      obtain ⟨rfl, -⟩ := sectionEntry_eq_ok.mp hso
      exact Nat.le_add_right _ _
    refine ⟨so, sectionEntry_agree hag hso,
      rawSize, readU32_agree hag hsize (hclear _ _ (hle.trans (Nat.le_add_right _ _))),
      rawPtr, readU32_agree hag hptr (hclear _ _ (hle.trans (Nat.le_add_right _ _))), ?_⟩
    split at hA
    · rename_i hempty
      rw [if_pos hempty]
      exact ih hA
    · rename_i hempty
      rw [if_neg hempty]
      simp only [bind_eq_ok, refuseIf_eq_ok, pure_eq_ok, not_lt] at hA ⊢
      obtain ⟨_, hle, rest, hrest, rfl⟩ := hA
      exact ⟨(), hle.trans hag.length_le, rest, ih hrest, rfl⟩

end Reads

/-! ## The certificate entry -/

/-- With a certificate entry: where it is, and that the optional header has room for it. -/
theorem certificateEntry_eq_some {pe : Bytes} {ddOffset numRva optEnd entry size : Nat} :
    certificateEntry pe ddOffset numRva optEnd = .ok (some entry, size) ↔
      (numRva > 4 ∧ ddOffset + 4 * 8 + 8 ≤ optEnd) ∧ entry = ddOffset + 4 * 8 ∧
        readU32 pe (entry + 4) "certificate table size" = .ok size := by
  unfold certificateEntry
  dsimp only
  split
  · rename_i hroom
    simp only [bind_eq_ok, pure_eq_ok, Prod.mk.injEq, Option.some.injEq]
    constructor
    · rintro ⟨_, hread, rfl, rfl⟩
      exact ⟨hroom, rfl, hread⟩
    · rintro ⟨-, rfl, hread⟩
      exact ⟨size, hread, rfl, rfl⟩
  · rename_i hroom
    constructor
    · intro h
      simp at h
    · rintro ⟨hroom', -⟩
      exact absurd hroom' hroom

/-- Without one the optional header has no room for it, or no such directory. -/
theorem certificateEntry_eq_none {pe : Bytes} {ddOffset numRva optEnd size : Nat} :
    certificateEntry pe ddOffset numRva optEnd = .ok (none, size) ↔
      ¬ (numRva > 4 ∧ ddOffset + 4 * 8 + 8 ≤ optEnd) ∧ size = 0 := by
  unfold certificateEntry
  dsimp only
  split
  · rename_i hroom
    simp only [bind_eq_ok, pure_eq_ok, Prod.mk.injEq, reduceCtorEq, false_and, and_false, exists_false,
      false_iff]
    exact fun h => h.1 hroom
  · rename_i hroom
    simp only [pure_eq_ok, Prod.mk.injEq, true_and]
    exact ⟨fun h => ⟨hroom, h.symm⟩, fun h => h.2.symm⟩

/-! ## All headers -/

/-- Headers are only read off an image that parses. -/
theorem exists_header {pe : Bytes} {headers : AuthenticodeHeaders}
    (h : readAuthenticodeHeaders pe = .ok headers) :
    ∃ header, parsePeHeader pe = .ok (some header) := by
  simp only [readAuthenticodeHeaders, bind_eq_ok] at h
  obtain ⟨header?, hparsed, h⟩ := h
  cases header? with
  | none => exact absurd h throw_ne_ok
  | some header => exact ⟨header, hparsed⟩

/-- Where the fields lie in an image that is accepted. -/
structure FieldOrder (pe : Bytes) (header : PeHeader) (headers : AuthenticodeHeaders) : Prop where
  parsed : parsePeHeader pe = .ok (some header)
  checksum_eq : headers.layout.checksumOff = header.coffOffset + 20 + 64
  checksum_le : headers.layout.checksumOff + 4 ≤ headers.layout.numRvaOff
  numRva_eq : headers.layout.numRvaOff + 4 = headers.layout.ddOffset
  entry_eq : ∀ e ∈ headers.certEntryOff,
    e = headers.layout.ddOffset + 4 * 8 ∧ e + 8 ≤ header.secTableOff

/-- The fields of headers that were read stand in order. -/
theorem exists_fieldOrder {pe : Bytes} {headers : AuthenticodeHeaders}
    (h : readAuthenticodeHeaders pe = .ok headers) : ∃ header, FieldOrder pe header headers := by
  obtain ⟨header, hparsed⟩ := exists_header h
  obtain ⟨opt, _, _, _, hopt, -, hlayout, -, -, hcert, -⟩ :=
    (readAuthenticodeHeaders_eq_ok hparsed).mp h
  obtain ⟨hchecksum, hnum, hle⟩ := optionalLayout_eq_ok hlayout
  refine ⟨header, hparsed, hchecksum, hle, hnum, fun e he => ?_⟩
  rw [Option.mem_def] at he
  rw [he] at hcert
  obtain ⟨⟨-, hroom⟩, rfl, -⟩ := certificateEntry_eq_some.mp hcert
  have hsec := (readPeHeader_eq_ok.mp (parsePeHeader_eq_some.mp hparsed).2).2.2.1
  rw [← (readU16_eq_ok.mp hopt).2] at hsec
  exact ⟨rfl, by omega⟩

/-- The holes lie in the CheckSum and in the certificate entry. -/
def HeaderHoles (headers : AuthenticodeHeaders) (holes : List (Nat × Nat)) : Prop :=
  ∀ s ∈ holes, ∃ e ∈ headers.certEntryOff,
    (headers.layout.checksumOff ≤ s.1 ∧ s.2 ≤ headers.layout.checksumOff + 4) ∨
      (e ≤ s.1 ∧ s.2 ≤ e + 8)

/-- **The headers of an accepted image are read alike** out of a longer image that differs in the
CheckSum and the certificate entry; only the certificate table size is that of the other image. -/
theorem readAuthenticodeHeaders_agree {A B : Bytes} {holes : List (Nat × Nat)}
    {headers : AuthenticodeHeaders} (hag : AgreeOutside A B holes)
    (hA : readAuthenticodeHeaders A = .ok headers) (hholes : HeaderHoles headers holes) :
    readAuthenticodeHeaders B = .ok { headers with
      certTableSize := headers.certEntryOff.elim 0 fun e => uintAt B (e + 4) 4 } := by
  obtain ⟨header, horder⟩ := exists_fieldOrder hA
  obtain ⟨opt, magic, num, sections, hopt, hmagic, hlayout, hsize, hnum, hcert, hle, hsections,
    hsort⟩ := (readAuthenticodeHeaders_eq_ok horder.parsed).mp hA
  have hchecksum := horder.checksum_eq
  have hnumLe := horder.checksum_le
  have hdd := horder.numRva_eq
  -- in front of the CheckSum, at NumberOfRvaAndSizes and from the section table on nothing changes
  have hfront : ∀ a b, b ≤ header.coffOffset + 20 + 64 → Clear holes a b := by
    intro a b hb s hs
    obtain ⟨e, he, hin | hin⟩ := hholes s hs
    · exact Or.inl (by omega)
    · have := (horder.entry_eq e he).1
      exact Or.inl (by omega)
  have hmiddle : Clear holes headers.layout.numRvaOff (headers.layout.numRvaOff + 4) := by
    intro s hs
    obtain ⟨e, he, hin | hin⟩ := hholes s hs
    · exact Or.inr (by omega)
    · have := (horder.entry_eq e he).1
      exact Or.inl (by omega)
  have htable : ∀ a b, header.secTableOff ≤ a → Clear holes a b := by
    intro a b ha s hs
    obtain ⟨e, he, hin⟩ := hholes s hs
    have := horder.entry_eq e he
    exact Or.inr (by omega)
  have hparsedB := parsePeHeader_agree hag horder.parsed hfront
  refine (readAuthenticodeHeaders_eq_ok hparsedB).mpr ⟨opt, magic, num, sections,
    readU16_agree hag hopt (hfront _ _ (by omega)), readU16_agree hag hmagic (hfront _ _ (by omega)),
    hlayout, readU32_agree hag hsize (hfront _ _ (by omega)), readU32_agree hag hnum hmiddle, ?_,
    hle.trans hag.length_le, rawSectionsLoop_agree hag htable hsections, hsort⟩
  cases hentry : headers.certEntryOff with
  | none =>
    rw [hentry] at hcert
    exact certificateEntry_eq_none.mpr ⟨(certificateEntry_eq_none.mp hcert).1, rfl⟩
  | some e =>
    rw [hentry] at hcert
    obtain ⟨hroom, he, hread⟩ := certificateEntry_eq_some.mp hcert
    have hend := (readU32_eq_ok.mp hread).1.trans hag.length_le
    exact certificateEntry_eq_some.mpr ⟨hroom, he, readU32_eq_ok.mpr ⟨hend, rfl⟩⟩

end CvmMeasure.Pe
