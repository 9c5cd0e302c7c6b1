import CvmMeasure.Binary.LittleEndian

/-! # Hexadecimal

`bytes.hex` and `bytes.fromhex`, in which the tool exchanges register values.

* **`hex_injective`**: two byte strings with the same hexadecimal are equal;
* **`fromHex_hex`**: decoding undoes encoding;
* `fromHex_toUpper_hex`: in capital letters as well;
* `fromHexChars_of_digits`: digits alone decode to half as many bytes. -/

namespace CvmMeasure.Python

open Binary

/-- The digit of a number below sixteen. -/
def hexDigit (n : Nat) : Char :=
  if n < 10 then Char.ofNat (0x30 + n) else Char.ofNat (0x57 + n)

/-- The two digits of a byte. -/
def hexByte (b : UInt8) : List Char := [hexDigit (b.toNat / 16), hexDigit (b.toNat % 16)]

/-- `bytes.hex()`. -/
def hex (bs : Bytes) : String := String.ofList (bs.flatMap hexByte)

/-- The number of a digit, in either case. -/
def hexValue (c : Char) : Option Nat :=
  if 0x30 ≤ c.toNat ∧ c.toNat ≤ 0x39 then some (c.toNat - 0x30)
  else if 0x61 ≤ c.toNat ∧ c.toNat ≤ 0x66 then some (c.toNat - 0x57)
  else if 0x41 ≤ c.toNat ∧ c.toNat ≤ 0x46 then some (c.toNat - 0x37)
  else none

/-- ASCII whitespace, which `bytes.fromhex` skips between bytes. -/
def isAsciiSpace (c : Char) : Bool :=
  c.toNat == 0x20 || (0x09 ≤ c.toNat && c.toNat ≤ 0x0D)

/-- The bytes of a digit sequence: pairs of digits, with whitespace between pairs. -/
def fromHexChars : List Char → Option Bytes
  | [] => some []
  | [c] => if isAsciiSpace c then some [] else none
  | c :: c' :: cs =>
    if isAsciiSpace c then fromHexChars (c' :: cs)
    else
      match hexValue c, hexValue c' with
      | some high, some low => (fromHexChars cs).map fun bs => UInt8.ofNat (16 * high + low) :: bs
      | _, _ => none

/-- `bytes.fromhex(s)`, `none` where it raises `ValueError`. -/
def fromHex? (s : String) : Option Bytes := fromHexChars s.toList

/-! ## Decoding undoes encoding -/

/-- A digit has its number. -/
theorem hexValue_hexDigit {n : Nat} (h : n < 16) : hexValue (hexDigit n) = some n := by
  have hall : ∀ m < 16, hexValue (hexDigit m) = some m := by decide
  exact hall n h

/-- And is no whitespace. -/
theorem isAsciiSpace_hexDigit {n : Nat} (h : n < 16) : isAsciiSpace (hexDigit n) = false := by
  have hall : ∀ m < 16, isAsciiSpace (hexDigit m) = false := by decide
  exact hall n h

/-- Two digits and what follows. -/
theorem fromHexChars_of_values {c c' : Char} {b : UInt8} (hhigh : hexValue c = some (b.toNat / 16))
    (hlow : hexValue c' = some (b.toNat % 16)) (hspace : isAsciiSpace c = false) (cs : List Char) :
    fromHexChars (c :: c' :: cs) = (fromHexChars cs).map fun bs => b :: bs := by
  have hlt : b.toNat < 256 := b.toNat_lt
  have hbyte : UInt8.ofNat (16 * (b.toNat / 16) + b.toNat % 16) = b := by
    apply UInt8.toNat_inj.mp
    rw [UInt8.toNat_ofNat']
    omega
  rw [fromHexChars, hspace, hhigh, hlow]
  simp only [Bool.false_eq_true, if_false, hbyte]

/-- A byte and what follows. -/
theorem fromHexChars_hexByte (b : UInt8) (cs : List Char) :
    fromHexChars (hexByte b ++ cs) = (fromHexChars cs).map fun bs => b :: bs := by
  have hlt : b.toNat < 256 := b.toNat_lt
  exact fromHexChars_of_values (hexValue_hexDigit (by omega)) (hexValue_hexDigit (by omega))
    (isAsciiSpace_hexDigit (by omega)) cs

/-- **Decoding undoes encoding.** -/
theorem fromHex_hex (bs : Bytes) : fromHex? (hex bs) = some bs := by
  rw [fromHex?, hex, String.toList_ofList]
  induction bs with
  | nil => rw [List.flatMap_nil, fromHexChars]
  | cons b bs ih => rw [List.flatMap_cons, fromHexChars_hexByte, ih, Option.map_some]

/-- **Decoding does not look at the case of the digits.** -/
theorem fromHex_toUpper_hex (bs : Bytes) : fromHex? ((hex bs).map Char.toUpper) = some bs := by
  have hupper : ∀ n < 16, hexValue (hexDigit n).toUpper = some n ∧ isAsciiSpace (hexDigit n).toUpper = false := by
    decide
  rw [fromHex?, hex, String.toList_map, String.toList_ofList]
  induction bs with
  | nil => rw [List.flatMap_nil, List.map_nil, fromHexChars]
  | cons b bs ih =>
    have hlt : b.toNat < 256 := b.toNat_lt
    obtain ⟨hhigh, hspace⟩ := hupper (b.toNat / 16) (by omega)
    obtain ⟨hlow, -⟩ := hupper (b.toNat % 16) (by omega)
    have hcons : ((b :: bs).flatMap hexByte).map Char.toUpper = (hexDigit (b.toNat / 16)).toUpper
        :: (hexDigit (b.toNat % 16)).toUpper :: (bs.flatMap hexByte).map Char.toUpper := by
      rw [List.flatMap_cons, List.map_append]
      rfl
    rw [hcons, fromHexChars_of_values hhigh hlow hspace, ih, Option.map_some]

/-- Nothing with a number is whitespace. -/
theorem isAsciiSpace_of_digit {c : Char} (h : (hexValue c).isSome) : isAsciiSpace c = false := by
  by_contra hspace
  have hle : c.toNat ≤ 0x20 := by
    simp only [isAsciiSpace, Bool.not_eq_false, Bool.or_eq_true, Bool.and_eq_true, beq_iff_eq,
      decide_eq_true_eq] at hspace
    omega
  unfold hexValue at h
  rw [if_neg (by omega), if_neg (by omega), if_neg (by omega)] at h
  cases h

/-- Digits alone decode to half as many bytes. -/
theorem fromHexChars_of_digits {cs : List Char} {n : Nat} (hlen : cs.length = 2 * n)
    (h : ∀ c ∈ cs, (hexValue c).isSome) : ∃ bs, fromHexChars cs = some bs ∧ bs.length = n := by
  induction n generalizing cs with
  | zero =>
    obtain rfl := List.eq_nil_of_length_eq_zero hlen
    exact ⟨[], by rw [fromHexChars], rfl⟩
  | succ n ih =>
    match cs, hlen with
    | c :: c' :: cs, hlen =>
      simp only [List.length_cons] at hlen
      simp only [List.forall_mem_cons] at h
      obtain ⟨hc, hc', hcs⟩ := h
      obtain ⟨high, hhigh⟩ := Option.isSome_iff_exists.mp hc
      obtain ⟨low, hlow⟩ := Option.isSome_iff_exists.mp hc'
      obtain ⟨bs, hbs, hbslen⟩ := ih (by omega) hcs
      refine ⟨UInt8.ofNat (16 * high + low) :: bs, ?_, congrArg (· + 1) hbslen⟩
      rw [fromHexChars, isAsciiSpace_of_digit hc, hhigh, hlow, hbs]
      rfl

/-- **The hexadecimal of a byte string determines it.** -/
theorem hex_injective {bs bs' : Bytes} (h : hex bs = hex bs') : bs = bs' := by
  have hsome : some bs = some bs' := by rw [← fromHex_hex bs, h, fromHex_hex bs']
  exact Option.some.inj hsome

end CvmMeasure.Python
