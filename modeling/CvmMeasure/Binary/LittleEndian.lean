import Mathlib.Algebra.Order.Ring.Nat
import Mathlib.Data.List.Infix
import Mathlib.Tactic.Ring

/-! # Byte strings and little-endian integers

Every binary format of the tool stores its integers little-endian at a fixed width. This file fixes
the byte-string type and the two halves of that encoding:

* **`leNat bs`**: the number a byte string spells;
* **`leBytes w n`**: `n` at width `w`, wrapping modulo `256 ^ w`.

They are mutually inverse between numbers below `256 ^ w` and byte strings of length `w`
(`leNat_leBytes`, `leBytes_leNat`), which is all the format proofs use. -/

namespace CvmMeasure.Binary

/-- A byte string. -/
abbrev Bytes := List UInt8

/-- The number a little-endian byte string spells. -/
def leNat : Bytes → Nat
  | [] => 0
  | b :: bs => b.toNat + 256 * leNat bs

/-- `n` as `w` little-endian bytes, wrapping modulo `256 ^ w`. -/
def leBytes : Nat → Nat → Bytes
  | 0, _ => []
  | w + 1, n => UInt8.ofNat n :: leBytes w (n / 256)

/-- No bytes make zero. -/
@[simp] theorem leNat_nil : leNat [] = 0 := rfl

/-- The first byte is the lowest. -/
@[simp] theorem leNat_cons (b : UInt8) (bs : Bytes) :
    leNat (b :: bs) = b.toNat + 256 * leNat bs := rfl

/-- A number of no width has no bytes. -/
@[simp] theorem leBytes_zero (n : Nat) : leBytes 0 n = [] := rfl

/-- The width of an encoding is the width asked for. -/
@[simp] theorem leBytes_length (w n : Nat) : (leBytes w n).length = w := by
  induction w generalizing n with
  | zero => rfl
  | succ w ih => rw [leBytes, List.length_cons, ih]

/-- A byte string of length `w` spells a number below `256 ^ w`. -/
theorem leNat_lt (bs : Bytes) : leNat bs < 256 ^ bs.length := by
  induction bs with
  | nil => simp
  | cons b bs ih =>
    have hb : b.toNat < 256 := b.toNat_lt
    rw [leNat_cons, List.length_cons, pow_succ]
    omega

/-- Decoding undoes encoding below the width's bound. -/
theorem leNat_leBytes {w n : Nat} (h : n < 256 ^ w) : leNat (leBytes w n) = n := by
  induction w generalizing n with
  | zero => rw [pow_zero] at h; rw [leBytes_zero, leNat_nil]; omega
  | succ w ih =>
    have hdiv : n / 256 < 256 ^ w := by
      rw [pow_succ] at h
      omega
    rw [leBytes, leNat_cons, ih hdiv, UInt8.toNat_ofNat']
    omega

/-- Encoding undoes decoding at the byte string's own width. -/
theorem leBytes_leNat (bs : Bytes) : leBytes bs.length (leNat bs) = bs := by
  induction bs with
  | nil => rfl
  | cons b bs ih =>
    have hb : b.toNat < 256 := b.toNat_lt
    have hlow : UInt8.ofNat (b.toNat + 256 * leNat bs) = b := by
      apply UInt8.toNat_inj.mp
      rw [UInt8.toNat_ofNat']
      omega
    have hhigh : (b.toNat + 256 * leNat bs) / 256 = leNat bs := by omega
    rw [List.length_cons, leNat_cons, leBytes, hlow, hhigh, ih]

/-- The same, with the width given separately. -/
theorem leBytes_leNat_of_length {w : Nat} {bs : Bytes} (h : bs.length = w) :
    leBytes w (leNat bs) = bs := by
  subst h
  exact leBytes_leNat bs

/-- **Two numbers below the bound with the same encoding are equal.** -/
theorem leBytes_inj {w m n : Nat} (hm : m < 256 ^ w) (hn : n < 256 ^ w)
    (h : leBytes w m = leBytes w n) : m = n := by
  rw [← leNat_leBytes hm, h, leNat_leBytes hn]

end CvmMeasure.Binary
