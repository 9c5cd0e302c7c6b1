import CvmMeasure.Binary.LittleEndian

/-! # UTF-8 and UTF-16

The two text encodings the tool reads and writes: strict UTF-8, and little-endian UTF-16 with
`errors="replace"` on decoding. No string here holds a surrogate, so characters are `Char`s.

* **`utf16LeDecode_utf16LeEncode`**: decoding undoes encoding, for every string;
* **`length_utf16LeEncode_iff`**: a string has as many code units as characters exactly if all of them
  are in the Basic Multilingual Plane. -/

namespace CvmMeasure.Python

open Binary

/-! ## UTF-8 -/

/-- The payload of a continuation byte, `0b10xxxxxx`. -/
def continuation? (b : UInt8) : Option Nat :=
  if 0x80 ≤ b.toNat ∧ b.toNat < 0xC0 then some (b.toNat - 0x80) else none

/-- `bytes.decode("utf-8")`, `none` where it raises: overlong forms, surrogates, numbers past
`0x10FFFF` and cut sequences are refused. -/
def utf8Decode? : Bytes → Option (List Char)
  | [] => some []
  | b :: bs =>
    let n := b.toNat
    if n < 0x80 then (utf8Decode? bs).map fun cs => Char.ofNat n :: cs
    else
      match bs with
      | [] => none
      | b₁ :: bs₁ =>
        match continuation? b₁ with
        | none => none
        | some c₁ =>
          if 0xC2 ≤ n ∧ n < 0xE0 then
            (utf8Decode? bs₁).map fun cs => Char.ofNat ((n - 0xC0) * 0x40 + c₁) :: cs
          else
            match bs₁ with
            | [] => none
            | b₂ :: bs₂ =>
              match continuation? b₂ with
              | none => none
              | some c₂ =>
                if 0xE0 ≤ n ∧ n < 0xF0 then
                  let code := (n - 0xE0) * 0x1000 + c₁ * 0x40 + c₂
                  if 0x800 ≤ code ∧ ¬ (0xD800 ≤ code ∧ code < 0xE000) then
                    (utf8Decode? bs₂).map fun cs => Char.ofNat code :: cs
                  else none
                else
                  match bs₂ with
                  | [] => none
                  | b₃ :: bs₃ =>
                    match continuation? b₃ with
                    | none => none
                    | some c₃ =>
                      let code := (n - 0xF0) * 0x40000 + c₁ * 0x1000 + c₂ * 0x40 + c₃
                      if 0xF0 ≤ n ∧ 0x10000 ≤ code ∧ code < 0x110000 then
                        (utf8Decode? bs₃).map fun cs => Char.ofNat code :: cs
                      else none

/-! ## UTF-16 -/

/-- The UTF-16 code units of a character, little-endian. -/
def utf16LeChar (c : Char) : Bytes :=
  let n := c.toNat
  if n < 0x10000 then leBytes 2 n
  else leBytes 2 (0xD800 + (n - 0x10000) / 0x400) ++ leBytes 2 (0xDC00 + (n - 0x10000) % 0x400)

/-- `str.encode("utf-16-le")`. -/
def utf16LeEncode (cs : List Char) : Bytes := cs.flatMap utf16LeChar

/-- The replacement character. -/
def replacementChar : Char := Char.ofNat 0xFFFD

/-- A high surrogate is followed by a low one. -/
def isHighSurrogate (n : Nat) : Bool := 0xD800 ≤ n && n < 0xDC00
/-- The second unit of a surrogate pair. -/
def isLowSurrogate (n : Nat) : Bool := 0xDC00 ≤ n && n < 0xE000

/-- `bytes.decode("utf-16-le", errors="replace")`. An odd last byte, a lone surrogate, and a high
surrogate with less than a unit behind it each become one replacement character. -/
def utf16LeDecode : Bytes → List Char
  | [] => []
  | [_] => [replacementChar]
  | b₀ :: b₁ :: bs =>
    let n := leNat [b₀, b₁]
    if isHighSurrogate n then
      match bs with
      | [] => [replacementChar]
      | [_] => [replacementChar]
      | b₂ :: b₃ :: bs' =>
        let m := leNat [b₂, b₃]
        if isLowSurrogate m then
          Char.ofNat (0x10000 + (n - 0xD800) * 0x400 + (m - 0xDC00)) :: utf16LeDecode bs'
        else replacementChar :: utf16LeDecode (b₂ :: b₃ :: bs')
    else if isLowSurrogate n then replacementChar :: utf16LeDecode bs
    else Char.ofNat n :: utf16LeDecode bs

example : utf8Decode? [0x61, 0xC3, 0xA9, 0xE2, 0x82, 0xAC, 0xF0, 0x9F, 0x98, 0x80]
    = some ['a', 'é', '€', '😀'] := by decide

example : utf16LeDecode (utf16LeEncode ['a', '€', '😀']) = ['a', '€', '😀'] := by decide

/-! ## Decoding undoes encoding -/

/-- The character has one code unit. -/
def InBmp (c : Char) : Prop := c.toNat < 0x10000

instance : DecidablePred InBmp := fun c => by unfold InBmp; infer_instance

/-- A code unit, read from its two bytes. -/
theorem leNat_unit {n : Nat} (h : n < 0x10000) :
    leNat [UInt8.ofNat n, UInt8.ofNat (n / 256)] = n :=
  leNat_leBytes (w := 2) h

/-- A character is no surrogate and not past `0x10FFFF`. -/
theorem toNat_scalar (c : Char) : c.toNat < 0xD800 ∨ 0xDFFF < c.toNat ∧ c.toNat < 0x110000 := c.valid

/-- The first character is read off its code units. -/
theorem utf16LeDecode_char (c : Char) (bs : Bytes) :
    utf16LeDecode (utf16LeChar c ++ bs) = c :: utf16LeDecode bs := by
  have hscalar := toNat_scalar c
  by_cases hbmp : c.toNat < 0x10000
  · have hchar : utf16LeChar c = [UInt8.ofNat c.toNat, UInt8.ofNat (c.toNat / 256)] := if_pos hbmp
    have hhigh : isHighSurrogate c.toNat = false := by
      simp only [isHighSurrogate, Bool.and_eq_false_iff, decide_eq_false_iff_not]
      omega
    have hlow : isLowSurrogate c.toNat = false := by
      simp only [isLowSurrogate, Bool.and_eq_false_iff, decide_eq_false_iff_not]
      omega
    rw [hchar, List.cons_append, List.cons_append, List.nil_append, utf16LeDecode.eq_def]
    simp only [leNat_unit hbmp, hhigh, hlow, Bool.false_eq_true, if_false, Char.ofNat_toNat]
  · -- the two halves of the number above the plane, each in a surrogate
    obtain ⟨m, hm⟩ : ∃ m, c.toNat = 0x10000 + m := Nat.exists_eq_add_of_le (Nat.le_of_not_lt hbmp)
    have hhi : 0xD800 + m / 0x400 < 0x10000 := by omega
    have hlo : 0xDC00 + m % 0x400 < 0x10000 := by omega
    have hchar : utf16LeChar c = leBytes 2 (0xD800 + m / 0x400) ++ leBytes 2 (0xDC00 + m % 0x400) := by
      rw [utf16LeChar, if_neg hbmp, hm, Nat.add_sub_cancel_left]
    have hhigh : isHighSurrogate (0xD800 + m / 0x400) = true := by
      simp only [isHighSurrogate, Bool.and_eq_true, decide_eq_true_eq]
      omega
    have hlow : isLowSurrogate (0xDC00 + m % 0x400) = true := by
      simp only [isLowSurrogate, Bool.and_eq_true, decide_eq_true_eq]
      omega
    have hvalue : 0x10000 + (0xD800 + m / 0x400 - 0xD800) * 0x400 + (0xDC00 + m % 0x400 - 0xDC00)
        = c.toNat := by
      omega
    rw [hchar]
    simp only [leBytes, List.cons_append, List.nil_append]
    rw [utf16LeDecode.eq_def]
    simp only [leNat_unit hhi, leNat_unit hlo, hhigh, hlow, if_true, hvalue, Char.ofNat_toNat]

/-- **Decoding undoes encoding.** -/
theorem utf16LeDecode_utf16LeEncode (cs : List Char) : utf16LeDecode (utf16LeEncode cs) = cs := by
  induction cs with
  | nil => rfl
  | cons c cs ih =>
    rw [utf16LeEncode, List.flatMap_cons, utf16LeDecode_char]
    exact congrArg (c :: ·) ih

/-! ## Code units -/

/-- A character has one code unit in the plane, and two beyond it. -/
theorem length_utf16LeChar (c : Char) : (utf16LeChar c).length = if InBmp c then 2 else 4 := by
  by_cases h : InBmp c
  · have hchar : utf16LeChar c = leBytes 2 c.toNat := if_pos h
    rw [if_pos h, hchar, leBytes_length]
  · have hbeyond : ¬ c.toNat < 0x10000 := h
    rw [if_neg h, utf16LeChar, if_neg hbeyond, List.length_append, leBytes_length, leBytes_length]

/-- A character takes two bytes or four. -/
theorem length_utf16LeEncode_cons (c : Char) (cs : List Char) :
    (utf16LeEncode (c :: cs)).length = (if InBmp c then 2 else 4) + (utf16LeEncode cs).length := by
  rw [utf16LeEncode, List.flatMap_cons, List.length_append, length_utf16LeChar]
  rfl

/-- So a text takes at least two bytes a character. -/
theorem le_length_utf16LeEncode (cs : List Char) : 2 * cs.length ≤ (utf16LeEncode cs).length := by
  induction cs with
  | nil => exact Nat.zero_le _
  | cons c cs ih =>
    rw [length_utf16LeEncode_cons, List.length_cons]
    split <;> omega

/-- **A string has as many code units as characters exactly if all its characters are in the plane.** -/
theorem length_utf16LeEncode_iff {cs : List Char} :
    (utf16LeEncode cs).length = 2 * cs.length ↔ ∀ c ∈ cs, InBmp c := by
  induction cs with
  | nil => exact iff_of_true rfl fun _ hc => absurd hc List.not_mem_nil
  | cons c cs ih =>
    have hle := le_length_utf16LeEncode cs
    rw [List.forall_mem_cons, ← ih, length_utf16LeEncode_cons, List.length_cons]
    by_cases hc : InBmp c
    · rw [if_pos hc, and_iff_right hc]
      omega
    · rw [if_neg hc]
      constructor
      · intro h
        omega
      · exact fun h => absurd h.1 hc

end CvmMeasure.Python
