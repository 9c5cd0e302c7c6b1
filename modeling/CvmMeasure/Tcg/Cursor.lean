import CvmMeasure.Binary.Window
import CvmMeasure.Python.Exceptions
import CvmMeasure.Python.Text

/-! # The bounds-checked reader

`Cursor` of `tcg.py`: a sequential reader over one buffer that refuses every read the buffer does not
hold. The buffer, its label, its `limit` and its `fill` never change, so they are the `Cursor`; the
mutable `_offset` is the state of `CursorM`.

A read normally stops at `limit`, where trailing fill begins. `Cursor.require` allows one crossing: a
*lenient* read may run on into bytes that are all fill. On the cursors the parser builds every byte
past the limit is fill (`Cursor.Tight`), so there a lenient read is bounded by the buffer and a strict
one by the limit. `Cursor.uint_ok_iff` and `Cursor.take_ok_iff` say so, in the vocabulary of
`HasAt`; the parser proofs use nothing else about the reader. -/

namespace CvmMeasure.Tcg

open Binary Python

/-- The fixed part of a `Cursor`: the buffer, its name in error texts, the offset where trailing fill
begins, and the byte that fill repeats. -/
structure Cursor where
  data : Bytes
  what : String
  limit : Nat
  fill : Option UInt8
  deriving DecidableEq, Repr

/-- A reader method; the state is `_offset`. -/
abbrev CursorM := PyState Nat

namespace Cursor

/-- `Cursor(data, what)`: no fill, so the limit is the end of the buffer. -/
def ofData (data : Bytes) (what : String) : Cursor :=
  { data, what, limit := data.length, fill := none }

/-- Bytes before the fill boundary, which is where events stop. -/
def remaining (c : Cursor) (offset : Nat) : Nat := c.limit - offset

/-- Bytes before the end of the buffer, fill included. -/
def inBuffer (c : Cursor) (offset : Nat) : Nat := c.data.length - offset

/-- The crossing `_require` allows: the read stays in the buffer and what it covers past the limit is
all fill. -/
def mayCross (c : Cursor) (offset size : Nat) : Bool :=
  match c.fill with
  | none => false
  | some fill =>
      -- what the read covers past the limit
      let spill := slice c.data (max offset c.limit) (offset + size)
      size ≤ c.inBuffer offset && spill.count fill == spill.length

/-- `_require`: refuse a read of `size` bytes the cursor does not allow. -/
def require (c : Cursor) (size : Nat) (field : String) (strict : Bool) : CursorM Unit := do
  let offset ← get
  if size ≤ c.remaining offset then pure ()
  else if !strict && c.mayCross offset size then pure ()
  else throw (.valueError
    s!"{c.what} truncated at offset {offset}: {field} needs {size} byte(s), {c.inBuffer offset} remain")

/-- `self._data[self._offset]`. -/
def byteAt (c : Cursor) : CursorM Nat := do
  let offset ← get
  match c.data[offset]? with
  | some b => pure b.toNat
  | none => throw (.indexError "index out of range")

/-- `struct.unpack_from` of one little-endian integer at the current offset. -/
def unpack (c : Cursor) (width : Nat) : CursorM Nat := do
  let offset ← get
  if offset + width ≤ c.data.length then pure (leNat (slice c.data offset (offset + width)))
  else throw (.structError
    s!"unpack_from requires a buffer of at least {offset + width} bytes for unpacking {width} bytes at offset {offset} (actual buffer size is {c.data.length})")

/-- `self._offset += size`. -/
def advance (size : Nat) : CursorM Unit := do
  let offset ← get
  set (offset + size)

/-- Read one little-endian integer of `width` bytes. -/
def uint (c : Cursor) (width : Nat) (field : String) : CursorM Nat := do
  c.require width field false
  let value ← c.unpack width
  advance width
  pure value

/-- Read a `UINT8`. -/
def u8 (c : Cursor) (field : String) : CursorM Nat := do
  c.require 1 field false
  let value ← c.byteAt
  advance 1
  pure value

/-- Read a `UINT16`. -/
def u16 (c : Cursor) (field : String) : CursorM Nat := c.uint 2 field

/-- Read a `UINT32`. -/
def u32 (c : Cursor) (field : String) : CursorM Nat := c.uint 4 field

/-- Read `size` bytes; a strict read may not cover any fill. -/
def take (c : Cursor) (size : Nat) (field : String) (strict : Bool) : CursorM Bytes := do
  c.require size field strict
  let offset ← get
  let value := slice c.data offset (offset + size)
  advance size
  pure value

/-- Read a `UINT32` without consuming it. -/
def peekU32 (c : Cursor) (field : String) : CursorM Nat := do
  c.require 4 field false
  c.unpack 4

/-- `bounded_count`: refuse a declared count too large for the bytes that remain. -/
def boundedCount (c : Cursor) (count itemSize : Nat) (field : String) : CursorM Nat := do
  let offset ← get
  if count * itemSize > c.inBuffer offset then
    throw (.valueError
      s!"{c.what} declares {count} {field} at offset {offset}, needing at least {count * itemSize} byte(s) of the {c.inBuffer offset} that remain")
  else pure count

/-- `tail`: everything from the current offset on. -/
def tail (c : Cursor) : CursorM Bytes := do
  let offset ← get
  pure (c.data.drop offset)

/-! ## Tight cursors -/

/-- **What the parser's cursors satisfy.** The limit is in the buffer, every byte past it is the fill
byte, and a cursor without fill has its limit at the end. -/
structure Tight (c : Cursor) : Prop where
  limit_le : c.limit ≤ c.data.length
  past_limit : ∀ f, c.fill = some f → ∀ i, c.limit ≤ i → i < c.data.length → c.data[i]? = some f
  without_fill : c.fill = none → c.limit = c.data.length

/-- A cursor over all of its data is tight. -/
theorem ofData_tight (data : Bytes) (what : String) : (ofData data what).Tight :=
  ⟨le_rfl, fun _ h => by simp [ofData] at h, fun _ => rfl⟩

/-- Where a read has to end: strict reads at the limit, lenient ones at the end of the buffer. -/
def bound (c : Cursor) (strict : Bool) : Nat := if strict then c.limit else c.data.length

/-- A tight cursor never looks past its data. -/
theorem Tight.bound_le {c : Cursor} (h : c.Tight) (strict : Bool) : c.bound strict ≤ c.data.length := by
  have := h.limit_le
  unfold bound
  split <;> omega

/-- On a tight cursor a crossing is allowed as soon as it stays in the buffer. -/
theorem Tight.mayCross_iff {c : Cursor} (h : c.Tight) {o size : Nat} (hpos : 0 < size)
    (hlim : ¬ o + size ≤ c.limit) : c.mayCross o size = true ↔ o + size ≤ c.data.length := by
  have hle := h.limit_le
  unfold mayCross
  cases hf : c.fill with
  | none =>
    -- without fill the limit is the end of the buffer, so the read leaves the buffer too
    have := h.without_fill hf
    simp only [Bool.false_eq_true, false_iff]
    omega
  | some f =>
    simp only [Bool.and_eq_true, decide_eq_true_eq, beq_iff_eq]
    unfold inBuffer
    constructor
    · rintro ⟨hsize, -⟩
      omega
    · intro hsize
      -- every byte past the limit is the fill byte, so the count always agrees
      refine ⟨by omega, List.count_eq_length.mpr ?_⟩
      intro b hb
      obtain ⟨i, hi, rfl⟩ := List.mem_iff_getElem.mp hb
      rw [length_slice_of_le hsize] at hi
      have hi' : max o c.limit + i < c.data.length := by omega
      have := h.past_limit f hf (max o c.limit + i) (by omega) hi'
      rw [List.getElem?_eq_getElem hi', Option.some.injEq] at this
      simpa [slice] using this.symm

/-- **Specification of `_require`**: a read is allowed iff it ends at its bound. -/
theorem Tight.require_ok_iff {c : Cursor} (h : c.Tight) {size o o' : Nat} {field : String}
    {strict : Bool} {u : Unit} :
    c.require size field strict o = .ok u o' ↔
      o' = o ∧ (size = 0 ∨ o + size ≤ c.bound strict) := by
  have hle := h.limit_le
  unfold require
  rw [run_bind_ok]
  simp only [run_get_ok]
  constructor
  · rintro ⟨_, _, ⟨rfl, rfl⟩, hrun⟩
    split at hrun
    · rename_i hrem
      -- the read ends below the limit, hence below either bound
      obtain ⟨-, rfl⟩ := run_pure_ok.mp hrun
      refine ⟨rfl, ?_⟩
      unfold remaining at hrem
      unfold bound
      split <;> omega
    · rename_i hrem
      unfold remaining at hrem
      split at hrun
      · rename_i hcross
        -- a crossing: the read is lenient, and its bound is the end of the buffer
        obtain ⟨-, rfl⟩ := run_pure_ok.mp hrun
        rw [Bool.and_eq_true, Bool.not_eq_true'] at hcross
        have := (h.mayCross_iff (by omega) (by omega)).mp hcross.2
        exact ⟨rfl, Or.inr (by rw [bound, hcross.1]; simpa using this)⟩
      · exact absurd hrun run_throw_ne_ok
  · rintro ⟨rfl, hsize⟩
    refine ⟨o', o', ⟨rfl, rfl⟩, ?_⟩
    by_cases hrem : size ≤ c.remaining o'
    · rw [if_pos hrem]
      exact run_pure_ok.mpr ⟨rfl, rfl⟩
    · rw [if_neg hrem]
      unfold remaining at hrem
      -- past the limit only a lenient read can end below its bound
      cases strict with
      | true =>
        simp only [bound, if_true] at hsize
        omega
      | false =>
        have hcross : c.mayCross o' size = true := by
          refine (h.mayCross_iff (by omega) (by omega)).mpr ?_
          rcases hsize with hzero | hend
          · omega
          · simpa [bound] using hend
        rw [if_pos (by simp [hcross])]
        exact run_pure_ok.mpr ⟨rfl, rfl⟩

/-- `_require` leaves the offset alone and raises only `ValueError`. -/
theorem require_raises (c : Cursor) (size : Nat) (field : String) (strict : Bool) (I : Nat → Prop) :
    RaisesOnlyValueError I (c.require size field strict) := by
  unfold require
  refine raisesOnlyValueError_get.andThen fun offset => ?_
  split
  · exact raisesOnlyValueError_pure _
  · split
    · exact raisesOnlyValueError_pure _
    · exact raisesOnlyValueError_throw _

/-- Advancing moves the offset. -/
@[simp] theorem advance_ok_iff {size o o' : Nat} {u : Unit} :
    advance size o = .ok u o' ↔ o' = o + size := by
  unfold advance
  simp only [run_bind_ok, run_get_ok, run_set_ok]
  constructor
  · rintro ⟨_, _, ⟨rfl, rfl⟩, rfl⟩
    rfl
  · rintro rfl
    exact ⟨o, o, ⟨rfl, rfl⟩, rfl⟩

/-- Unpacking reads the bytes that stand at the offset. -/
theorem unpack_ok_iff {c : Cursor} {width o o' v : Nat} (hw : 0 < width) :
    c.unpack width o = .ok v o' ↔
      v < 256 ^ width ∧ HasAt c.data o (leBytes width v) ∧ o' = o := by
  unfold unpack
  simp only [run_bind_ok, run_get_ok]
  constructor
  · rintro ⟨_, _, ⟨rfl, rfl⟩, hrun⟩
    split at hrun
    · rename_i hend
      obtain ⟨rfl, rfl⟩ := run_pure_ok.mp hrun
      obtain ⟨hlt, hat⟩ := (hasAt_leBytes_iff hw).mpr ⟨hend, rfl⟩
      exact ⟨hlt, hat, rfl⟩
    · exact absurd hrun run_throw_ne_ok
  · rintro ⟨hlt, hat, rfl⟩
    obtain ⟨hend, rfl⟩ := (hasAt_leBytes_iff hw).mp ⟨hlt, hat⟩
    refine ⟨o', o', ⟨rfl, rfl⟩, ?_⟩
    rw [if_pos hend]
    exact run_pure_ok.mpr ⟨rfl, rfl⟩

/-- **Specification of the integer reads.** -/
theorem Tight.uint_ok_iff {c : Cursor} (h : c.Tight) {width o o' v : Nat} {field : String}
    (hw : 0 < width) :
    c.uint width field o = .ok v o' ↔
      v < 256 ^ width ∧ HasAt c.data o (leBytes width v) ∧ o' = o + width := by
  unfold uint
  simp only [run_bind_ok, h.require_ok_iff, unpack_ok_iff hw, advance_ok_iff, run_pure_ok]
  constructor
  · rintro ⟨_, _, ⟨rfl, -⟩, _, _, ⟨hlt, hat, rfl⟩, _, _, rfl, rfl, rfl⟩
    exact ⟨hlt, hat, rfl⟩
  · rintro ⟨hlt, hat, rfl⟩
    obtain ⟨hend, -⟩ := (hasAt_leBytes_iff hw).mp ⟨hlt, hat⟩
    exact ⟨(), o, ⟨rfl, Or.inr (by simpa [bound] using hend)⟩, v, o, ⟨hlt, hat, rfl⟩, (), _, rfl, rfl, rfl⟩

/-- Reading a `UINT16` returns the number whose two bytes stand at the offset. -/
theorem Tight.u16_ok_iff {c : Cursor} (h : c.Tight) {o o' v : Nat} {field : String} :
    c.u16 field o = .ok v o' ↔ v < 256 ^ 2 ∧ HasAt c.data o (leBytes 2 v) ∧ o' = o + 2 :=
  h.uint_ok_iff (by omega)

/-- Reading a `UINT32` returns the number whose four bytes stand at the offset. -/
theorem Tight.u32_ok_iff {c : Cursor} (h : c.Tight) {o o' v : Nat} {field : String} :
    c.u32 field o = .ok v o' ↔ v < 256 ^ 4 ∧ HasAt c.data o (leBytes 4 v) ∧ o' = o + 4 :=
  h.uint_ok_iff (by omega)

/-- Indexing one byte is unpacking one byte. -/
theorem byteAt_ok_iff {c : Cursor} {o o' v : Nat} :
    c.byteAt o = .ok v o' ↔ c.unpack 1 o = .ok v o' := by
  unfold byteAt unpack
  simp only [run_bind_ok, run_get_ok]
  by_cases hlt : o < c.data.length
  · have hslice : slice c.data o (o + 1) = [c.data[o]] := by
      rw [slice, List.drop_eq_getElem_cons hlt, Nat.add_sub_cancel_left, List.take_succ_cons,
        List.take_zero]
    constructor <;> rintro ⟨_, _, ⟨rfl, rfl⟩, hrun⟩ <;> refine ⟨_, _, ⟨rfl, rfl⟩, ?_⟩
    · rw [List.getElem?_eq_getElem hlt] at hrun
      rw [if_pos (by omega), hslice]
      simpa using hrun
    · rw [if_pos (by omega), hslice] at hrun
      rw [List.getElem?_eq_getElem hlt]
      simpa using hrun
  · -- neither reads past the end of the buffer
    constructor <;> rintro ⟨_, _, ⟨rfl, rfl⟩, hrun⟩
    · rw [List.getElem?_eq_none (by omega)] at hrun
      exact absurd hrun run_throw_ne_ok
    · rw [if_neg (by omega)] at hrun
      exact absurd hrun run_throw_ne_ok

/-- The one-byte read is the integer read of width one. -/
theorem Tight.u8_ok_iff {c : Cursor} (h : c.Tight) {o o' v : Nat} {field : String} :
    c.u8 field o = .ok v o' ↔
      v < 256 ^ 1 ∧ HasAt c.data o (leBytes 1 v) ∧ o' = o + 1 := by
  have huint : c.uint 1 field o = .ok v o' ↔ _ := h.uint_ok_iff (by omega)
  rw [← huint]
  unfold u8 uint
  simp only [run_bind_ok, byteAt_ok_iff]

/-- **Specification of `take`**: exactly the bytes that stand at the offset, ending at the bound. -/
theorem Tight.take_ok_iff {c : Cursor} (h : c.Tight) {size o o' : Nat} {field : String}
    {strict : Bool} {bs : Bytes} :
    c.take size field strict o = .ok bs o' ↔
      bs.length = size ∧ HasAt c.data o bs ∧ o' = o + size ∧
        (size = 0 ∨ o + size ≤ c.bound strict) := by
  have hbound := h.bound_le strict
  unfold take
  simp only [run_bind_ok, h.require_ok_iff, run_get_ok, advance_ok_iff, run_pure_ok]
  constructor
  · rintro ⟨_, _, ⟨rfl, hend⟩, _, _, ⟨rfl, rfl⟩, _, _, rfl, rfl, rfl⟩
    refine ⟨?_, hasAt_slice _ _ _, rfl, hend⟩
    rw [length_slice]
    omega
  · rintro ⟨rfl, hat, rfl, hend⟩
    exact ⟨(), o, ⟨rfl, hend⟩, o, o, ⟨rfl, rfl⟩, (), _, rfl, hasAt_iff_slice_eq.mp hat, rfl⟩

/-- A lenient `take` reads whatever the buffer holds. -/
theorem Tight.takeLenient_ok_iff {c : Cursor} (h : c.Tight) {size o o' : Nat} {field : String}
    {bs : Bytes} :
    c.take size field false o = .ok bs o' ↔
      bs.length = size ∧ HasAt c.data o bs ∧ o' = o + size := by
  rw [h.take_ok_iff]
  constructor
  · rintro ⟨hlen, hat, ho, -⟩
    exact ⟨hlen, hat, ho⟩
  · rintro ⟨hlen, hat, ho⟩
    refine ⟨hlen, hat, ho, ?_⟩
    by_cases hzero : size = 0
    · exact Or.inl hzero
    · have hend := hat.end_le (List.ne_nil_of_length_pos (by omega))
      exact Or.inr (by simpa [bound, ← hlen] using hend)

/-- Peeking reads the integer and stays. -/
theorem Tight.peekU32_ok_iff {c : Cursor} (h : c.Tight) {o o' v : Nat} {field : String} :
    c.peekU32 field o = .ok v o' ↔
      v < 256 ^ 4 ∧ HasAt c.data o (leBytes 4 v) ∧ o' = o := by
  unfold peekU32
  simp only [run_bind_ok, h.require_ok_iff, unpack_ok_iff (show 0 < 4 by omega)]
  constructor
  · rintro ⟨_, _, ⟨rfl, -⟩, hrest⟩
    exact hrest
  · rintro ⟨hlt, hat, rfl⟩
    obtain ⟨hend, -⟩ := (hasAt_leBytes_iff (Nat.succ_pos 3)).mp ⟨hlt, hat⟩
    exact ⟨(), o', ⟨rfl, Or.inr (by simpa [bound] using hend)⟩, hlt, hat, rfl⟩

/-- The tail is all that follows the offset. -/
@[simp] theorem tail_ok_iff {c : Cursor} {o o' : Nat} {bs : Bytes} :
    c.tail o = .ok bs o' ↔ bs = c.data.drop o ∧ o' = o := by
  unfold tail
  simp only [run_bind_ok, run_get_ok, run_pure_ok]
  constructor
  · rintro ⟨_, _, ⟨rfl, rfl⟩, rfl, rfl⟩
    exact ⟨rfl, rfl⟩
  · rintro ⟨rfl, rfl⟩
    exact ⟨o', o', ⟨rfl, rfl⟩, rfl, rfl⟩

/-- A count is accepted if as many items fit in the buffer. -/
theorem boundedCount_ok_iff {c : Cursor} {count itemSize o o' n : Nat} {field : String} :
    c.boundedCount count itemSize field o = .ok n o' ↔
      n = count ∧ o' = o ∧ count * itemSize ≤ c.inBuffer o := by
  unfold boundedCount
  simp only [run_bind_ok, run_get_ok]
  constructor
  · rintro ⟨_, _, ⟨rfl, rfl⟩, hrun⟩
    split at hrun
    · exact absurd hrun run_throw_ne_ok
    · obtain ⟨rfl, rfl⟩ := run_pure_ok.mp hrun
      exact ⟨rfl, rfl, by omega⟩
  · rintro ⟨rfl, rfl, hle⟩
    exact ⟨o', o', ⟨rfl, rfl⟩, by rw [if_neg (by omega)]; exact run_pure_ok.mpr ⟨rfl, rfl⟩⟩

/-! ## Reads raise nothing but `ValueError`

`_require` stands in front of every access, so on a tight cursor `struct.unpack_from` and the index
access always succeed. -/

/-- After a lenient `_require` the read stays in the buffer. -/
theorem Tight.fits_of_require {c : Cursor} (h : c.Tight) {size o o' : Nat} {field : String} {u : Unit}
    (hreq : c.require size field false o = .ok u o') (hpos : 0 < size) :
    o' + size ≤ c.data.length := by
  obtain ⟨rfl, hend⟩ := h.require_ok_iff.mp hreq
  rcases hend with hzero | hend
  · omega
  · simpa [bound] using hend

/-- `struct.unpack_from` raises nothing on bytes that are there. -/
theorem unpack_raises (c : Cursor) (width : Nat) :
    RaisesOnlyValueError (fun o => o + width ≤ c.data.length) (c.unpack width) := by
  intro o e o' hfits herr
  unfold unpack at herr
  rcases run_bind_error.mp herr with hget | ⟨v, o₁, hget, hread⟩
  · cases hget
  · obtain ⟨rfl, rfl⟩ := run_get_ok.mp hget
    rw [if_pos hfits] at hread
    exact absurd hread run_pure_ne_error

/-- Neither does indexing one of them. -/
theorem byteAt_raises (c : Cursor) :
    RaisesOnlyValueError (fun o => o + 1 ≤ c.data.length) c.byteAt := by
  intro o e o' hfits herr
  unfold byteAt at herr
  rcases run_bind_error.mp herr with hget | ⟨v, o₁, hget, hread⟩
  · cases hget
  · obtain ⟨rfl, rfl⟩ := run_get_ok.mp hget
    rw [List.getElem?_eq_getElem (by omega)] at hread
    exact absurd hread run_pure_ne_error

/-- Advancing raises nothing. -/
theorem advance_raises (size : Nat) (I : Nat → Prop) : RaisesOnlyValueError I (advance size) := by
  intro o e o' _ herr
  cases herr

/-- Reading a number raises only `ValueError`, at every offset: -/
theorem Tight.uint_raises {c : Cursor} (h : c.Tight) {width : Nat} (hw : 0 < width) (field : String)
    (I : Nat → Prop) : RaisesOnlyValueError I (c.uint width field) := by
  refine (require_raises c width field false I).bind
    (fun o u o' _ hreq => h.fits_of_require hreq hw) fun _ => ?_
  exact (unpack_raises c width).andThen fun _ =>
    (advance_raises width _).andThen fun _ => raisesOnlyValueError_pure _

/-- a `UINT16`, -/
theorem Tight.u16_raises {c : Cursor} (h : c.Tight) (field : String) (I : Nat → Prop) :
    RaisesOnlyValueError I (c.u16 field) := h.uint_raises (by omega) field I

/-- a `UINT32`, -/
theorem Tight.u32_raises {c : Cursor} (h : c.Tight) (field : String) (I : Nat → Prop) :
    RaisesOnlyValueError I (c.u32 field) := h.uint_raises (by omega) field I

/-- and a byte. -/
theorem Tight.u8_raises {c : Cursor} (h : c.Tight) (field : String) (I : Nat → Prop) :
    RaisesOnlyValueError I (c.u8 field) := by
  refine (require_raises c 1 field false I).bind
    (fun o u o' _ hreq => h.fits_of_require hreq (by omega)) fun _ => ?_
  exact (byteAt_raises c).andThen fun _ =>
    (advance_raises 1 _).andThen fun _ => raisesOnlyValueError_pure _

/-- So does taking bytes, -/
theorem take_raises (c : Cursor) (size : Nat) (field : String) (strict : Bool) (I : Nat → Prop) :
    RaisesOnlyValueError I (c.take size field strict) := by
  exact (require_raises c size field strict I).andThen fun _ =>
    raisesOnlyValueError_get.andThen fun _ =>
      (advance_raises size _).andThen fun _ => raisesOnlyValueError_pure _

/-- looking at the next `UINT32`, -/
theorem Tight.peekU32_raises {c : Cursor} (h : c.Tight) (field : String) (I : Nat → Prop) :
    RaisesOnlyValueError I (c.peekU32 field) :=
  (require_raises c 4 field false I).bind
    (fun _ _ _ _ hreq => h.fits_of_require hreq (by omega)) fun _ => unpack_raises c 4

/-- and checking a count. -/
theorem boundedCount_raises (c : Cursor) (count itemSize : Nat) (field : String) (I : Nat → Prop) :
    RaisesOnlyValueError I (c.boundedCount count itemSize field) := by
  unfold boundedCount
  refine raisesOnlyValueError_get.andThen fun offset => ?_
  split
  · exact raisesOnlyValueError_throw _
  · exact raisesOnlyValueError_pure _

end Cursor

end CvmMeasure.Tcg
