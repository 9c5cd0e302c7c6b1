import CvmMeasure.Binary.Window
import CvmMeasure.Python.Hex

/-! # EFI GUIDs

`guid.py`: an EFI GUID is mixed-endian, its first three fields little-endian and the rest in order. A
`uuid.UUID` is its sixteen big-endian bytes. -/

namespace CvmMeasure.Tdx

open Binary Python

def guidSize : Nat := 16

/-- Swap the byte order of the first three fields of sixteen bytes. -/
def swapGuidFields (b : Bytes) : Bytes :=
  (slice b 0 4).reverse ++ (slice b 4 6).reverse ++ (slice b 6 8).reverse ++ slice b 8 guidSize

/-- `uuid_to_efi_bytes`. -/
def uuidToEfiBytes (u : Bytes) : Bytes := swapGuidFields u

/-- `efi_bytes_to_uuid`; its callers pass sixteen bytes. -/
def efiBytesToUuid (data : Bytes) : Bytes := swapGuidFields data

/-- Swapping the fields of sixteen bytes twice gives them back. -/
theorem swapGuidFields_swapGuidFields {b : Bytes} (h : b.length = guidSize) :
    swapGuidFields (swapGuidFields b) = b :=
  match b, h with
  | [_, _, _, _, _, _, _, _, _, _, _, _, _, _, _, _], _ => rfl

/-- A GUID takes sixteen bytes, in the order of EFI -/
theorem length_uuidToEfiBytes {u : Bytes} (h : u.length = guidSize) :
    (uuidToEfiBytes u).length = guidSize :=
  match u, h with
  | [_, _, _, _, _, _, _, _, _, _, _, _, _, _, _, _], _ => rfl

/-- A GUID is read back from its bytes. -/
theorem efiBytesToUuid_uuidToEfiBytes {u : Bytes} (h : u.length = guidSize) :
    efiBytesToUuid (uuidToEfiBytes u) = u :=
  swapGuidFields_swapGuidFields h

/-- `uuid.UUID` of a canonical GUID string. -/
def uuidOfString (s : String) : Bytes :=
  (fromHex? (String.ofList (s.toList.filter (· != '-')))).getD []

/-- The text of a GUID: thirty-two hexadecimal digits of either case, the hyphens aside. -/
structure IsGuidText (s : String) : Prop where
  length_eq : (s.toList.filter (· != '-')).length = 2 * guidSize
  digits : ∀ c ∈ s.toList.filter (· != '-'), (hexValue c).isSome

/-- and in the order of its text. -/
theorem length_uuidOfString {s : String} (h : IsGuidText s) : (uuidOfString s).length = guidSize := by
  obtain ⟨bs, hbs, hlen⟩ := fromHexChars_of_digits h.length_eq h.digits
  rw [uuidOfString, fromHex?, String.toList_ofList, hbs]
  exact hlen

/-- `guid_str_to_efi_bytes`. -/
def guidStrToEfiBytes (s : String) : Bytes := uuidToEfiBytes (uuidOfString s)

/-- `str(uuid)`: five groups of hexadecimal digits. -/
def uuidText (u : Bytes) : String :=
  "-".intercalate [hex (slice u 0 4), hex (slice u 4 6), hex (slice u 6 8), hex (slice u 8 10),
    hex (slice u 10 16)]

end CvmMeasure.Tdx
