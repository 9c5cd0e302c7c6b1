import CvmMeasure.Pe.Uki

/-! # Only `ValueError`

Whatever bytes they are given, the readers of `pe.py` and `measured_sections` return or raise
`ValueError`: every offset is checked before it is unpacked, so `struct.unpack_from` cannot fail, and the
loops raise nothing of their own.

* **`unpackFrom`**: `struct.unpack_from`, and `readU16_eq_unpackFrom`, `readU32_eq_unpackFrom`,
  `parsePeHeader_eq_unpackFrom`: where the readers call it;
* **`onlyValueError_authenticodeSpans`**, **`onlyValueError_peExtractSection`**,
  **`onlyValueError_measuredSections`**: the readers on top. -/

namespace CvmMeasure.Pe

open Binary Python

/-! ## Single reads -/

/-- `struct.unpack_from` of one little-endian integer. -/
def unpackFrom (pe : Bytes) (offset width : Nat) : Py Nat :=
  if offset + width ≤ pe.length then pure (uintAt pe offset width)
  else throw (.structError
    s!"unpack_from requires a buffer of at least {offset + width} bytes for unpacking {width} bytes at offset {offset} (actual buffer size is {pe.length})")

/-- `_read_u16` unpacks behind its check. -/
theorem readU16_eq_unpackFrom (pe : Bytes) (offset : Nat) (what : String) :
    readU16 pe offset what = (do
      refuseIf (offset + 2 > pe.length)
        (.valueError
          s!"PE image truncated: {what} at offset {offset} is past the end of a {pe.length}-byte image")
      unpackFrom pe offset 2) := by
  unfold readU16 unpackFrom refuseIf
  by_cases h : offset + 2 > pe.length
  · rw [if_pos h]
    rfl
  · rw [if_neg h, if_pos (not_lt.mp h)]

/-- `_read_u32` unpacks behind its check. -/
theorem readU32_eq_unpackFrom (pe : Bytes) (offset : Nat) (what : String) :
    readU32 pe offset what = (do
      refuseIf (offset + 4 > pe.length)
        (.valueError
          s!"PE image truncated: {what} at offset {offset} is past the end of a {pe.length}-byte image")
      unpackFrom pe offset 4) := by
  unfold readU32 unpackFrom refuseIf
  by_cases h : offset + 4 > pe.length
  · rw [if_pos h]
    rfl
  · rw [if_neg h, if_pos (not_lt.mp h)]

/-- `e_lfanew` is unpacked behind the check of the file length. -/
theorem parsePeHeader_eq_unpackFrom (pe : Bytes) :
    parsePeHeader pe =
      if 64 ≤ pe.length ∧ pe.take 2 = mzSignature then do
        let offset ← unpackFrom pe 0x3C 4
        if offset + 4 ≤ pe.length ∧ slice pe offset (offset + 4) = peSignature then some <$> readPeHeader pe
        else pure none
      else pure none := by
  by_cases hfront : 64 ≤ pe.length ∧ pe.take 2 = mzSignature
  · have hunpack : unpackFrom pe 0x3C 4 = .ok (peOffset pe) := if_pos hfront.1
    rw [if_pos hfront, hunpack, ok_bind, parsePeHeader]
    apply if_congr _ rfl rfl
    simp [hasPeSignatures, hfront.1, hfront.2]
  · have hnone : hasPeSignatures pe = false := by
      rw [not_and_or] at hfront
      rcases hfront with h | h
      · simp [hasPeSignatures, h]
      · simp [hasPeSignatures, h]
    rw [if_neg hfront, parsePeHeader, hnone, if_neg Bool.false_ne_true]

/-- What the buffer holds is unpacked. -/
theorem onlyValueError_unpackFrom {pe : Bytes} {offset width : Nat} (h : offset + width ≤ pe.length) :
    OnlyValueError (unpackFrom pe offset width) := by
  rw [unpackFrom, if_pos h]
  exact onlyValueError_pure _

/-- `_read_u16` unpacks inside the file. -/
theorem onlyValueError_readU16 (pe : Bytes) (offset : Nat) (what : String) :
    OnlyValueError (readU16 pe offset what) := by
  rw [readU16_eq_unpackFrom]
  exact (onlyValueError_refuseIf _ _).bind fun _ hok =>
    onlyValueError_unpackFrom (not_lt.mp (refuseIf_eq_ok.mp hok))

/-- `_read_u32` unpacks inside the file. -/
theorem onlyValueError_readU32 (pe : Bytes) (offset : Nat) (what : String) :
    OnlyValueError (readU32 pe offset what) := by
  rw [readU32_eq_unpackFrom]
  exact (onlyValueError_refuseIf _ _).bind fun _ hok =>
    onlyValueError_unpackFrom (not_lt.mp (refuseIf_eq_ok.mp hok))

/-- An entry of the section table is refused if it leaves the file. -/
theorem onlyValueError_sectionEntry (pe : Bytes) (secTableOff i : Nat) :
    OnlyValueError (sectionEntry pe secTableOff i) :=
  (onlyValueError_refuseIf _ _).andThen fun _ => onlyValueError_pure _

/-- The header fields are read behind their checks. -/
theorem onlyValueError_readPeHeader (pe : Bytes) : OnlyValueError (readPeHeader pe) :=
  (onlyValueError_readU16 _ _ _).andThen fun _ => (onlyValueError_readU16 _ _ _).andThen fun _ =>
    (onlyValueError_refuseIf _ _).andThen fun _ => onlyValueError_pure _

/-- A file without the signatures is no error, and one with them is read as a header. -/
theorem onlyValueError_parsePeHeader (pe : Bytes) : OnlyValueError (parsePeHeader pe) := by
  rw [parsePeHeader_eq_unpackFrom]
  split
  · rename_i hfront
    refine (onlyValueError_unpackFrom hfront.1).andThen fun offset => ?_
    split
    · exact (onlyValueError_readPeHeader pe).map some
    · exact onlyValueError_pure _
  · exact onlyValueError_pure _

/-- An optional header of another magic is refused. -/
theorem onlyValueError_optionalLayout (optOffset magic : Nat) :
    OnlyValueError (optionalLayout optOffset magic) := by
  unfold optionalLayout
  split
  · exact onlyValueError_pure _
  · split
    · exact onlyValueError_pure _
    · exact onlyValueError_throw _

/-- The size of the certificate table is read behind its checks. -/
theorem onlyValueError_certificateEntry (pe : Bytes) (ddOffset numRva optEnd : Nat) :
    OnlyValueError (certificateEntry pe ddOffset numRva optEnd) := by
  unfold certificateEntry
  dsimp only
  split
  · exact (onlyValueError_readU32 _ _ _).andThen fun _ => onlyValueError_pure _
  · exact onlyValueError_pure _

/-- The section table is read entry by entry, each behind its checks. -/
theorem onlyValueError_rawSectionsLoop (pe : Bytes) (secTableOff : Nat) (is : List Nat) :
    OnlyValueError (rawSectionsLoop pe secTableOff is) := by
  induction is with
  | nil => exact onlyValueError_pure _
  | cons i is ih =>
    refine (onlyValueError_sectionEntry _ _ _).andThen fun so =>
      (onlyValueError_readU32 _ _ _).andThen fun rawSize =>
        (onlyValueError_readU32 _ _ _).andThen fun rawPtr => ?_
    split
    · exact ih
    · exact (onlyValueError_refuseIf _ _).andThen fun _ => ih.andThen fun _ => onlyValueError_pure _

/-- What the Authenticode digest needs of the headers is read behind checks. -/
theorem onlyValueError_readAuthenticodeHeaders (pe : Bytes) :
    OnlyValueError (readAuthenticodeHeaders pe) := by
  refine (onlyValueError_parsePeHeader pe).andThen fun header? => ?_
  cases header? with
  | none => exact onlyValueError_throw _
  | some header =>
    exact (onlyValueError_readU16 _ _ _).andThen fun _ =>
      (onlyValueError_readU16 _ _ _).andThen fun _ =>
      (onlyValueError_optionalLayout _ _).andThen fun _ =>
      (onlyValueError_readU32 _ _ _).andThen fun _ =>
      (onlyValueError_readU32 _ _ _).andThen fun _ =>
      (onlyValueError_certificateEntry _ _ _ _).andThen fun _ =>
      (onlyValueError_refuseIf _ _).andThen fun _ =>
      (onlyValueError_rawSectionsLoop _ _ _).andThen fun _ => onlyValueError_pure _

/-- **The spans of the Authenticode digest are found or refused with `ValueError`.** -/
theorem onlyValueError_authenticodeSpans (pe : Bytes) : OnlyValueError (authenticodeSpans pe) :=
  (onlyValueError_readAuthenticodeHeaders pe).andThen fun _ =>
    (onlyValueError_refuseIf _ _).andThen fun _ =>
      (onlyValueError_refuseIf _ _).andThen fun _ => onlyValueError_pure _

/-- **`pe_authenticode_digest` returns or raises `ValueError`.** -/
theorem onlyValueError_authenticodeDigest (hash : Bytes → Bytes) (pe : Bytes) :
    OnlyValueError (peAuthenticodeDigest hash pe) := by
  have hstream : OnlyValueError (authenticodeStream pe) :=
    (onlyValueError_authenticodeSpans pe).andThen fun _ => onlyValueError_pure _
  exact hstream.andThen fun _ => onlyValueError_pure _

/-! ## Sections -/

/-- The names are read entry by entry. -/
theorem onlyValueError_namesLoop (pe : Bytes) (header : PeHeader) (is : List Nat) :
    OnlyValueError (namesLoop pe header is) := by
  induction is with
  | nil => exact onlyValueError_pure _
  | cons i is ih =>
    exact (onlyValueError_sectionEntry _ _ _).andThen fun _ => ih.andThen fun _ =>
      onlyValueError_pure _

/-- `pe_section_names` refuses what is no PE. -/
theorem onlyValueError_peSectionNames (pe : Bytes) : OnlyValueError (peSectionNames pe) := by
  refine (onlyValueError_parsePeHeader pe).andThen fun header? => ?_
  cases header? with
  | none => exact onlyValueError_throw _
  | some header => exact onlyValueError_namesLoop _ _ _

/-- `SizeOfImage` is read where the optional header holds it. -/
theorem onlyValueError_sizeOfImage (pe : Bytes) (coffOffset : Nat) :
    OnlyValueError (sizeOfImage pe coffOffset) := by
  refine (onlyValueError_readU16 _ _ _).andThen fun size => ?_
  dsimp only
  split
  · exact onlyValueError_pure _
  · exact (onlyValueError_readU32 _ _ _).map some

/-- An entry is refused if its bytes leave the file or the loaded image. -/
theorem onlyValueError_extractEntry (pe : Bytes) (coffOffset so : Nat) (sectionName : String)
    (useVirtualSize : Bool) (virtSize rawSize rawPtr : Nat) :
    OnlyValueError
      (extractEntry pe coffOffset so sectionName useVirtualSize virtSize rawSize rawPtr) := by
  unfold extractEntry
  split
  · exact onlyValueError_pure _
  · refine (onlyValueError_refuseIf _ _).andThen fun _ => ?_
    dsimp only
    split
    · exact onlyValueError_pure _
    · split
      · exact onlyValueError_pure _
      · refine (onlyValueError_readU32 _ _ _).andThen fun _ =>
          (onlyValueError_sizeOfImage _ _).andThen fun _ =>
          (onlyValueError_refuseIf _ _).andThen fun _ => ?_
        split
        · exact onlyValueError_pure _
        · exact (onlyValueError_refuseIf _ _).andThen fun _ => onlyValueError_pure _

/-- The first entry with the name decides. -/
theorem onlyValueError_extractLoop (pe : Bytes) (header : PeHeader) (sectionName : String)
    (useVirtualSize : Bool) (is : List Nat) :
    OnlyValueError (extractLoop pe header sectionName useVirtualSize is) := by
  induction is with
  | nil => exact onlyValueError_pure _
  | cons i is ih =>
    refine (onlyValueError_sectionEntry _ _ _).andThen fun so =>
      (onlyValueError_readU32 _ _ _).andThen fun _ => (onlyValueError_readU32 _ _ _).andThen fun _ =>
      (onlyValueError_readU32 _ _ _).andThen fun _ => ?_
    split
    · exact ih
    · exact onlyValueError_extractEntry _ _ _ _ _ _ _ _

/-- **`pe_extract_section` returns or raises `ValueError`.** -/
theorem onlyValueError_peExtractSection (pe : Bytes) (sectionName : String) (useVirtualSize : Bool) :
    OnlyValueError (peExtractSection pe sectionName useVirtualSize) := by
  refine (onlyValueError_parsePeHeader pe).andThen fun header? => ?_
  cases header? with
  | none => exact onlyValueError_pure _
  | some header => exact onlyValueError_extractLoop _ _ _ _ _

/-! ## Unified kernel images -/

/-- A UKI with sections that the model of the stub does not know is refused. -/
theorem onlyValueError_rejectUnmodelledUki (uki : Bytes) (register : String) :
    OnlyValueError (rejectUnmodelledUki uki register) :=
  (onlyValueError_peSectionNames uki).andThen fun _ => (onlyValueError_refuseIf _ _).andThen fun _ =>
    onlyValueError_refuseIf _ _

/-- The measured sections are read name by name. -/
theorem onlyValueError_measuredLoop (uki : Bytes) (names : List String) :
    OnlyValueError (measuredLoop uki names) := by
  induction names with
  | nil => exact onlyValueError_pure _
  | cons name names ih =>
    exact (onlyValueError_peExtractSection _ _ _).andThen fun _ => ih.andThen fun _ =>
      onlyValueError_pure _

/-- **`measured_sections` returns or raises `ValueError`.** -/
theorem onlyValueError_measuredSections (uki : Bytes) (register : String) :
    OnlyValueError (measuredSections uki register) :=
  (onlyValueError_rejectUnmodelledUki uki register).andThen fun _ =>
    onlyValueError_measuredLoop uki _

end CvmMeasure.Pe
