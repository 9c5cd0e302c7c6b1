import CvmMeasure.Binary.LittleEndian
import Mathlib.Data.List.DropRight
import Mathlib.Data.List.TakeDrop

/-! # Bytes at an offset

A binary parser reads fields at growing offsets of one buffer. This file gives the two vocabularies
the format proofs use for that, and the trailing-fill operation of a padded buffer:

* **`slice d a b`**: the bytes of `d` from `a` up to `b`, clamped to the buffer;
* **`HasAt d o bs`**: the bytes `bs` stand in `d` at offset `o`. It splits over concatenation
  (`hasAt_append`), is functional at a fixed length (`HasAt.eq_of_length_eq`) and only depends on the
  bytes it covers (`HasAt.congr`);
* **`rstrip p d`**: `d` without its trailing copies of the byte `p`. -/

namespace CvmMeasure.Binary

/-! ## Slices -/

/-- The bytes of `d` from offset `a` up to offset `b`, clamped to the buffer. -/
def slice (d : Bytes) (a b : Nat) : Bytes := (d.drop a).take (b - a)

/-- A slice is as long as its bounds ask, less what lies past the end of the buffer. -/
theorem length_slice (d : Bytes) (a b : Nat) :
    (slice d a b).length = min (b - a) (d.length - a) := by
  rw [slice, List.length_take, List.length_drop]

/-- A slice inside the buffer has its full length. -/
theorem length_slice_of_le {d : Bytes} {a b : Nat} (h : b ≤ d.length) :
    (slice d a b).length = b - a := by
  rw [length_slice]
  omega

/-- The little-endian integer of `width` bytes at `offset`. -/
def uintAt (d : Bytes) (offset width : Nat) : Nat := leNat (slice d offset (offset + width))

/-- `d` zero-filled to at least `n` bytes: `d.ljust(n, b"\x00")`. -/
def zeroFill (d : Bytes) (n : Nat) : Bytes := d ++ List.replicate (n - d.length) 0x00

/-- Two buffers that agree below `h` have the same slices below `h`. -/
theorem slice_congr {d d' : Bytes} {a b h : Nat} (hd : d.take h = d'.take h) (hb : b ≤ h) :
    slice d a b = slice d' a b := by
  have key : ∀ e : Bytes, slice e a b = ((e.take h).drop a).take (b - a) := by
    intro e
    rw [slice, List.drop_take, List.take_take]
    congr 1
    omega
  rw [key d, key d', hd]

/-- A slice is read off position by position. -/
theorem slice_ext {d d' : Bytes} {a b : Nat} (h : ∀ i, a ≤ i → i < b → d[i]? = d'[i]?) :
    slice d a b = slice d' a b := by
  apply List.ext_getElem?
  intro i
  rw [slice, slice, List.getElem?_take, List.getElem?_take]
  split
  · rw [List.getElem?_drop, List.getElem?_drop]
    exact h (a + i) (by omega) (by omega)
  · rfl

/-! ## Bytes at an offset -/

/-- The bytes `bs` stand in `d` at offset `o`. -/
def HasAt (d : Bytes) (o : Nat) (bs : Bytes) : Prop := bs <+: d.drop o

instance (d : Bytes) (o : Nat) (bs : Bytes) : Decidable (HasAt d o bs) :=
  inferInstanceAs (Decidable (bs <+: d.drop o))

/-- No bytes stand anywhere. -/
@[simp] theorem hasAt_nil (d : Bytes) (o : Nat) : HasAt d o [] := List.nil_prefix

/-- **Splitting.** A concatenation stands at `o` iff its parts stand one after the other. -/
theorem hasAt_append {d : Bytes} {o : Nat} {a b : Bytes} :
    HasAt d o (a ++ b) ↔ HasAt d o a ∧ HasAt d (o + a.length) b := by
  unfold HasAt
  rw [← List.drop_drop]
  constructor
  · rintro ⟨t, ht⟩
    rw [← ht, List.append_assoc]
    refine ⟨List.prefix_append a _, ?_⟩
    rw [List.drop_left]
    exact List.prefix_append b t
  · rintro ⟨⟨t, ht⟩, hb⟩
    rw [← ht, List.drop_left] at hb
    rw [← ht]
    exact (List.prefix_append_right_inj a).mpr hb

/-- The bytes at an offset end inside the buffer. -/
theorem HasAt.end_le {d : Bytes} {o : Nat} {bs : Bytes} (h : HasAt d o bs) (hne : bs ≠ []) :
    o + bs.length ≤ d.length := by
  have hlen := h.length_le
  have hpos : 0 < bs.length := List.length_pos_iff.mpr hne
  rw [List.length_drop] at hlen
  omega

/-- The same for a possibly empty string at an offset inside the buffer. -/
theorem HasAt.end_le_of_le {d : Bytes} {o : Nat} {bs : Bytes} (h : HasAt d o bs)
    (ho : o ≤ d.length) : o + bs.length ≤ d.length := by
  have hlen := h.length_le
  rw [List.length_drop] at hlen
  omega

/-- At one offset there is one string of each length. -/
theorem HasAt.eq_of_length_eq {d : Bytes} {o : Nat} {a b : Bytes} (ha : HasAt d o a)
    (hb : HasAt d o b) (h : a.length = b.length) : a = b :=
  (List.prefix_of_prefix_length_le ha hb h.le).eq_of_length h

/-- The bytes at `o` are the slice they cover. -/
theorem hasAt_iff_slice_eq {d : Bytes} {o : Nat} {bs : Bytes} :
    HasAt d o bs ↔ slice d o (o + bs.length) = bs := by
  unfold HasAt slice
  rw [Nat.add_sub_cancel_left, List.prefix_iff_eq_take, eq_comm]

/-- A slice stands at its own start. -/
theorem hasAt_slice (d : Bytes) (a b : Nat) : HasAt d a (slice d a b) :=
  List.take_prefix _ _

/-- **Locality.** Whether bytes stand at `o` only depends on the buffer below their end. -/
theorem HasAt.congr {d d' : Bytes} {o h : Nat} {bs : Bytes} (hat : HasAt d o bs)
    (hd : d.take h = d'.take h) (hle : o + bs.length ≤ h) : HasAt d' o bs := by
  rw [hasAt_iff_slice_eq] at hat ⊢
  rw [← slice_congr hd hle]
  exact hat

/-- An integer fits the width it is read with. -/
theorem uintAt_lt (d : Bytes) (o w : Nat) : uintAt d o w < 256 ^ w := by
  have hlength : (slice d o (o + w)).length ≤ w := by
    rw [length_slice]
    omega
  exact (leNat_lt _).trans_le (Nat.pow_le_pow_right (by decide) hlength)

/-- An integer read where its encoding stands. -/
theorem HasAt.uintAt_eq {d : Bytes} {o w n : Nat} (h : HasAt d o (leBytes w n)) (hn : n < 256 ^ w) :
    uintAt d o w = n := by
  have hslice := hasAt_iff_slice_eq.mp h
  rw [leBytes_length] at hslice
  rw [uintAt, hslice, leNat_leBytes hn]

/-- **Finding the encoding of an integer is reading the integer.** -/
theorem hasAt_leBytes_iff {d : Bytes} {o w n : Nat} (hw : 0 < w) :
    n < 256 ^ w ∧ HasAt d o (leBytes w n) ↔ o + w ≤ d.length ∧ n = uintAt d o w := by
  constructor
  · rintro ⟨hlt, hat⟩
    have hend := hat.end_le (List.ne_nil_of_length_pos (by rwa [leBytes_length]))
    rw [leBytes_length] at hend
    exact ⟨hend, (hat.uintAt_eq hlt).symm⟩
  · rintro ⟨hend, rfl⟩
    have hlength : (slice d o (o + w)).length = w := by
      rw [length_slice_of_le hend]
      omega
    refine ⟨uintAt_lt d o w, ?_⟩
    -- the bytes read are the encoding of the number they spell
    rw [uintAt, leBytes_leNat_of_length hlength]
    exact hasAt_slice _ _ _

/-- A slice read where its bytes stand. -/
theorem HasAt.slice_eq {d : Bytes} {o e : Nat} {bs : Bytes} (h : HasAt d o bs)
    (he : e = o + bs.length) : slice d o e = bs := by
  rw [he]
  exact hasAt_iff_slice_eq.mp h

/-- A middle part of a buffer stands at the length of what precedes it. -/
theorem hasAt_middle (x bs y : Bytes) : HasAt (x ++ (bs ++ y)) x.length bs := by
  rw [HasAt, List.drop_left]
  exact List.prefix_append bs y

/-- The remainder after bytes that stand at `o`. -/
theorem HasAt.drop_eq {d : Bytes} {o : Nat} {bs : Bytes} (h : HasAt d o bs) :
    d.drop o = bs ++ d.drop (o + bs.length) := by
  obtain ⟨t, ht⟩ := h
  rw [← List.drop_drop, ← ht, List.drop_left]

/-- Bytes that stand at `o`, read one at a time. -/
theorem HasAt.getElem? {d : Bytes} {o i : Nat} {bs : Bytes} (h : HasAt d o bs)
    (hi : i < bs.length) : d[o + i]? = bs[i]? := by
  have hdrop : (d.drop o)[i]? = bs[i]? := by
    rw [h.drop_eq, List.getElem?_append_left hi]
  rw [← hdrop, List.getElem?_drop]

/-! ## Trailing fill -/

/-- `d` without its trailing copies of the byte `p`. -/
def rstrip (p : UInt8) (d : Bytes) : Bytes := d.rdropWhile (· == p)

/-- A buffer is its stripped part followed by a run of the stripped byte. -/
theorem rstrip_append_replicate (p : UInt8) (d : Bytes) :
    rstrip p d ++ List.replicate (d.length - (rstrip p d).length) p = d := by
  have hsplit := List.rdropWhile_append_rtakeWhile (p := (· == p)) (l := d)
  have hrun : d.rtakeWhile (· == p)
      = List.replicate (d.length - (rstrip p d).length) p := by
    apply List.eq_replicate_iff.mpr
    constructor
    · have hlen := congrArg List.length hsplit
      rw [List.length_append] at hlen
      rw [rstrip]
      omega
    · intro b hb
      have := List.mem_rtakeWhile_imp hb
      simpa using this
  rw [← hrun]
  exact hsplit

/-- Stripping only shortens. -/
theorem length_rstrip_le (p : UInt8) (d : Bytes) : (rstrip p d).length ≤ d.length := by
  have h := congrArg List.length (rstrip_append_replicate p d)
  rw [List.length_append] at h
  omega

/-- Past the stripped part every byte is the stripped one. -/
theorem getElem?_of_rstrip_le {p : UInt8} {d : Bytes} {i : Nat} (hi : (rstrip p d).length ≤ i)
    (hlt : i < d.length) : d[i]? = some p := by
  conv_lhs => rw [← rstrip_append_replicate p d]
  rw [List.getElem?_append_right hi, List.getElem?_replicate, if_pos (by omega)]

/-- Stripping forgets a run of the stripped byte. -/
theorem rstrip_append_run (p : UInt8) (d : Bytes) (n : Nat) :
    rstrip p (d ++ List.replicate n p) = rstrip p d := by
  induction n with
  | zero => simp
  | succ n ih =>
    have hcat : d ++ List.replicate (n + 1) p = (d ++ List.replicate n p).concat p := by
      rw [List.replicate_succ', List.concat_eq_append, List.append_assoc]
    rw [hcat, List.concat_eq_append, rstrip, List.rdropWhile_concat_pos _ _ _ (by simp)]
    exact ih

/-- A buffer is stripped iff it ends in the byte. -/
theorem rstrip_ne_self_iff (p : UInt8) (d : Bytes) :
    (rstrip p d).length ≠ d.length ↔ d.getLast? = some p := by
  constructor
  · intro h
    have hrun := rstrip_append_replicate p d
    have hle := length_rstrip_le p d
    obtain ⟨m, hm⟩ : ∃ m, d.length - (rstrip p d).length = m + 1 :=
      Nat.exists_eq_succ_of_ne_zero (by omega)
    rw [hm, List.replicate_succ', ← List.append_assoc] at hrun
    rw [← hrun, List.getLast?_concat]
  · intro h heq
    obtain ⟨ys, rfl⟩ := List.getLast?_eq_some_iff.mp h
    have hstrip : rstrip p (ys ++ [p]) = rstrip p ys := rstrip_append_run p ys 1
    have hle := length_rstrip_le p ys
    rw [hstrip, List.length_append, List.length_singleton] at heq
    omega

end CvmMeasure.Binary
