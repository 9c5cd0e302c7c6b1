import CvmMeasure.Tdx.Baseline
import CvmMeasure.Tdx.Uefi
import Mathlib.Data.Bool.AllAny

/-! # UEFI variable data, written and read

`build_uefi_variable_data` writes the structure whose digest is recomputed, and `_uefi_var_name` and
`_secureboot_value` read the structures of a log. The writer takes the name's length in characters, the
readers count in 16-bit code units.

* **`unicodeName`**, **`variableData`**: the two fields at the end, as the lengths in front cut them;
* **`VariableDataAgrees`**: the fields are what was written, and the readers return it;
* **`variableDataAgrees_iff`**: they do exactly for names in the Basic Multilingual Plane. -/

namespace CvmMeasure.Tdx

open Binary Python

/-! ## The fields -/

/-- `UnicodeNameLength`. -/
def unicodeNameLength (blob : Bytes) : Nat := uintAt blob 16 8

/-- `VariableDataLength`. -/
def variableDataLength (blob : Bytes) : Nat := uintAt blob 24 8

/-- `UnicodeName[]`: two bytes for each unit of its length. -/
def unicodeName (blob : Bytes) : Bytes := slice blob 32 (32 + 2 * unicodeNameLength blob)

/-- `VariableData[]`: all that follows the name. -/
def variableData (blob : Bytes) : Bytes := blob.drop (32 + 2 * unicodeNameLength blob)

/-- **The writer and the readers agree**: the name field has two bytes for each unit declared and holds
the name, the data field has the length declared and holds the data, and the readers return both. -/
structure VariableDataAgrees (guid name : String) (data : Bytes) : Prop where
  name_length : (unicodeName (buildUefiVariableData guid name data)).length
    = 2 * unicodeNameLength (buildUefiVariableData guid name data)
  name_field : unicodeName (buildUefiVariableData guid name data) = utf16LeEncode name.toList
  data_length : (variableData (buildUefiVariableData guid name data)).length
    = variableDataLength (buildUefiVariableData guid name data)
  data_field : variableData (buildUefiVariableData guid name data) = data
  name_read : uefiVarName (buildUefiVariableData guid name data) = some name
  flag_read : ∀ b, data = [b] →
    securebootValue (buildUefiVariableData guid name data) = (b != 0x00)

/-! ## What is written -/

/-- The GUID the tool measures SecureBoot under. -/
theorem isGuidText_global : IsGuidText efiGlobalVariableGuid where
  length_eq := by decide +kernel
  digits := List.all_eq_true.mp (by decide +kernel)

section Writer

variable {guid name : String} {data : Bytes}

/-- The header of a structure takes 32 bytes. -/
theorem length_buildUefiVariableData (hguid : IsGuidText guid) (name : String) (data : Bytes) :
    (buildUefiVariableData guid name data).length
      = 32 + (utf16LeEncode name.toList).length + data.length := by
  have hlength : (guidStrToEfiBytes guid).length = 16 :=
    length_uuidToEfiBytes (length_uuidOfString hguid)
  simp only [buildUefiVariableData, List.length_append, leBytes_length, hlength]
  omega

/-- Where the fields behind the GUID stand. -/
theorem hasAt_buildUefiVariableData (hguid : IsGuidText guid) (name : String) (data : Bytes) :
    HasAt (buildUefiVariableData guid name data) 16 (leBytes 8 name.length) ∧
    HasAt (buildUefiVariableData guid name data) 24 (leBytes 8 data.length) ∧
    HasAt (buildUefiVariableData guid name data) 32 (utf16LeEncode name.toList) ∧
    HasAt (buildUefiVariableData guid name data) (32 + (utf16LeEncode name.toList).length) data := by
  have hlength : (guidStrToEfiBytes guid).length = 16 :=
    length_uuidToEfiBytes (length_uuidOfString hguid)
  have hwhole : HasAt (buildUefiVariableData guid name data) 0
      (buildUefiVariableData guid name data) := List.prefix_refl _
  conv at hwhole => arg 3; rw [buildUefiVariableData]
  simp only [hasAt_append, leBytes_length, hlength, Nat.zero_add, Nat.reduceAdd] at hwhole
  exact hwhole.2

/-- The name's length is written if it fits. -/
theorem unicodeNameLength_build (hguid : IsGuidText guid) (hname : name.length < 2 ^ 64)
    (data : Bytes) : unicodeNameLength (buildUefiVariableData guid name data) = name.length :=
  (hasAt_buildUefiVariableData hguid name data).1.uintAt_eq hname

/-- The length of the variable's data is read back. -/
theorem variableDataLength_build (hguid : IsGuidText guid) (name : String)
    (hdata : data.length < 2 ^ 64) :
    variableDataLength (buildUefiVariableData guid name data) = data.length :=
  (hasAt_buildUefiVariableData hguid name data).2.1.uintAt_eq hdata

end Writer

/-! ## What is read back -/

section Bmp

variable {guid name : String} {data : Bytes}

/-- A name in the plane has as many units as characters. -/
theorem length_utf16_of_bmp (hbmp : ∀ c ∈ name.toList, InBmp c) :
    (utf16LeEncode name.toList).length = 2 * name.length :=
  length_utf16LeEncode_iff.mpr hbmp

/-- The name field is the name. -/
theorem unicodeName_build (hguid : IsGuidText guid) (hname : name.length < 2 ^ 64)
    (hbmp : ∀ c ∈ name.toList, InBmp c) :
    unicodeName (buildUefiVariableData guid name data) = utf16LeEncode name.toList := by
  rw [unicodeName, unicodeNameLength_build hguid hname, ← length_utf16_of_bmp hbmp]
  exact (hasAt_buildUefiVariableData hguid name data).2.2.1.slice_eq rfl

/-- The data field is the data. -/
theorem variableData_build (hguid : IsGuidText guid) (hname : name.length < 2 ^ 64)
    (hbmp : ∀ c ∈ name.toList, InBmp c) :
    variableData (buildUefiVariableData guid name data) = data := by
  rw [variableData, unicodeNameLength_build hguid hname, ← length_utf16_of_bmp hbmp]
  have hat := (hasAt_buildUefiVariableData hguid name data).2.2.2
  refine (hat.eq_of_length_le ?_).symm
  rw [List.length_drop, length_buildUefiVariableData hguid]
  omega

/-- **`_uefi_var_name` returns the name written.** -/
theorem uefiVarName_build (hguid : IsGuidText guid) (hname : name.length < 2 ^ 64)
    (hbmp : ∀ c ∈ name.toList, InBmp c) :
    uefiVarName (buildUefiVariableData guid name data) = some name := by
  have hfield := @unicodeName_build guid name data hguid hname hbmp
  have hle : ¬ (buildUefiVariableData guid name data).length < 32 := by
    rw [length_buildUefiVariableData hguid]
    omega
  rw [unicodeName, unicodeNameLength, Nat.mul_comm] at hfield
  rw [uefiVarName, if_neg hle]
  show some (String.ofList (utf16LeDecode (slice _ 32 (32 + uintAt _ 16 8 * 2)))) = _
  rw [hfield, utf16LeDecode_utf16LeEncode, String.ofList_toList]

/-- **`_secureboot_value` returns the byte written**, as a flag. -/
theorem securebootValue_build (hguid : IsGuidText guid) (hname : name.length < 2 ^ 64)
    (hbmp : ∀ c ∈ name.toList, InBmp c) (b : UInt8) :
    securebootValue (buildUefiVariableData guid name [b]) = (b != 0x00) := by
  have hlength := length_buildUefiVariableData hguid name [b]
  have hunits := length_utf16_of_bmp hbmp
  have hnameLen : uintAt (buildUefiVariableData guid name [b]) 16 8 = name.length :=
    unicodeNameLength_build hguid hname [b]
  have hdataLen : uintAt (buildUefiVariableData guid name [b]) 24 8 = 1 :=
    variableDataLength_build hguid name (Nat.one_lt_two_pow (by decide))
  have hbyte : (buildUefiVariableData guid name [b])[32 + name.length * 2]? = some b := by
    have hat := (hasAt_buildUefiVariableData hguid name [b]).2.2.2
    have hread := @HasAt.getElem? _ _ 0 _ hat Nat.one_pos
    rw [hunits, Nat.add_zero, Nat.mul_comm] at hread
    exact hread
  rw [List.length_singleton] at hlength
  rw [securebootValue, if_neg (by omega)]
  simp only [hnameLen, hdataLen, hbyte]
  rw [if_neg (by omega)]
  rfl

end Bmp

/-! ## Agreement -/

/-- **The writer and the readers agree exactly on names in the Basic Multilingual Plane** that are
shorter than `2 ^ 64`, as every Python string is. -/
theorem variableDataAgrees_iff {guid name : String} {data : Bytes} (hguid : IsGuidText guid)
    (hdata : data.length < 2 ^ 64) :
    VariableDataAgrees guid name data ↔ name.length < 2 ^ 64 ∧ ∀ c ∈ name.toList, InBmp c := by
  constructor
  · intro h
    -- the name's bytes are twice the length declared, and at least two for each character
    have hbytes : (utf16LeEncode name.toList).length
        = 2 * unicodeNameLength (buildUefiVariableData guid name data) := by
      rw [← h.name_field]
      exact h.name_length
    have hle : 2 * name.length ≤ (utf16LeEncode name.toList).length := le_length_utf16LeEncode _
    have hlt : unicodeNameLength (buildUefiVariableData guid name data) < 2 ^ 64 := uintAt_lt _ 16 8
    have hname : name.length < 2 ^ 64 := by omega
    refine ⟨hname, length_utf16LeEncode_iff.mp ?_⟩
    rw [hbytes, unicodeNameLength_build hguid hname]
    rfl
  · rintro ⟨hname, hbmp⟩
    constructor
    case name_length =>
      rw [unicodeName_build hguid hname hbmp, unicodeNameLength_build hguid hname]
      exact length_utf16_of_bmp hbmp
    case name_field => exact unicodeName_build hguid hname hbmp
    case data_length =>
      rw [variableData_build hguid hname hbmp, variableDataLength_build hguid name hdata]
    case data_field => exact variableData_build hguid hname hbmp
    case name_read => exact uefiVarName_build hguid hname hbmp
    case flag_read =>
      rintro b rfl
      exact securebootValue_build hguid hname hbmp b

/-- The SecureBoot variable is read back as it was built. -/
theorem variableDataAgrees_secureBoot : VariableDataAgrees efiGlobalVariableGuid "SecureBoot" [0x01] :=
  (variableDataAgrees_iff isGuidText_global (Nat.one_lt_two_pow (by decide))).mpr
    ⟨by decide +kernel, List.all_iff_forall_prop.mp (by decide +kernel)⟩

/-- A name of one character beyond the plane, whose second unit ends in a byte that is not zero. -/
def beyondBmp : String := String.singleton (Char.ofNat 0x10001)

/-- A SecureBoot value of zero is read as set, out of the name. -/
theorem variableDataAgrees_beyondBmp :
    ¬ VariableDataAgrees efiGlobalVariableGuid beyondBmp [0x00] := by
  intro h
  have hset : securebootValue (buildUefiVariableData efiGlobalVariableGuid beyondBmp [0x00]) = true := by
    decide +kernel
  have hclear := h.flag_read 0x00 rfl
  rw [hset] at hclear
  cases hclear

end CvmMeasure.Tdx
