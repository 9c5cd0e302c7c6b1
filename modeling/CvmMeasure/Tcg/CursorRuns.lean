import CvmMeasure.Python.Refusal
import CvmMeasure.Sequence.Trace
import CvmMeasure.Tcg.ParseEvents

/-! # Runs of the bounds-checked reader

The log parser calls the reader's methods in an order the log decides, and a call may fail. Whatever
the order and whichever calls fail, the offset stays in the buffer and never decreases, a refused call
changes nothing, and what is read past the limit is fill (`RunSound`).

`Cursor.Tight.run_ok_iff` and `Cursor.Tight.run_error` say what one call does; `Cursor.Tight.sound`
collects it, and the run theorems of `Sequence.Trace` carry it over any list of calls. -/

namespace CvmMeasure.Tcg

open Binary Python Sequence

/-! ## Calls -/

/-- A call of a reader method with its arguments. -/
inductive CursorOp where
  | u8 (field : String)
  | u16 (field : String)
  | u32 (field : String)
  | take (size : Nat) (field : String) (strict : Bool)
  | peekU32 (field : String)
  deriving DecidableEq, Repr

/-- What a reader method returns. -/
inductive ReadValue where
  | int (n : Nat)
  | bytes (bs : Bytes)
  deriving DecidableEq, Repr

namespace CursorOp

/-- Call the method. -/
def run (c : Cursor) : CursorOp → CursorM ReadValue
  | .u8 field => do
      let n ← c.u8 field
      pure (.int n)
  | .u16 field => do
      let n ← c.u16 field
      pure (.int n)
  | .u32 field => do
      let n ← c.u32 field
      pure (.int n)
  | .take size field strict => do
      let bs ← c.take size field strict
      pure (.bytes bs)
  | .peekU32 field => do
      let n ← c.peekU32 field
      pure (.int n)

/-- The bytes a call covers. -/
def size : CursorOp → Nat
  | .u8 _ => 1
  | .u16 _ => 2
  | .u32 _ => 4
  | .take size _ _ => size
  | .peekU32 _ => 4

/-- The bytes a call moves past: peeking moves past none. -/
def advance : CursorOp → Nat
  | .peekU32 _ => 0
  | op => op.size

/-- Only `take` has strict calls. -/
def strict : CursorOp → Bool
  | .take _ _ strict => strict
  | _ => false

/-- What a call makes of the bytes it covers. -/
def decode : CursorOp → Bytes → ReadValue
  | .take _ _ _, bs => .bytes bs
  | _, bs => .int (leNat bs)

/-- A call at `offset` covers position `i`. -/
def Covers (op : CursorOp) (offset i : Nat) : Prop := offset ≤ i ∧ i < offset + op.size

/-- A call moves no further than it reads. -/
theorem advance_le_size (op : CursorOp) : op.advance ≤ op.size := by
  cases op with
  | peekU32 => exact Nat.zero_le _
  | _ => exact le_rfl

end CursorOp

namespace Cursor

/-- A call at an offset: what it returns or raises, and the offset it leaves. -/
def call (c : Cursor) (op : CursorOp) (offset : Nat) : Py ReadValue × Nat :=
  match op.run c offset with
  | .ok value offset' => (.ok value, offset')
  | .error e offset' => (.error e, offset')

/-! ## One call returns -/

/-- The reads of one integer: the integer of the covered bytes, in the buffer. -/
theorem run_int_ok_iff {c : Cursor} {x : CursorM Nat} {w a o o' : Nat} {v : ReadValue} (hw : 0 < w)
    (hx : ∀ n, x o = .ok n o' ↔ n < 256 ^ w ∧ HasAt c.data o (leBytes w n) ∧ o' = o + a) :
    (x >>= fun n => pure (ReadValue.int n)) o = .ok v o' ↔
      o + w ≤ c.data.length ∧ v = .int (uintAt c.data o w) ∧ o' = o + a := by
  simp only [run_bind_ok, run_pure_ok]
  constructor
  · rintro ⟨n, _, hread, rfl, rfl⟩
    obtain ⟨hlt, hat, ho⟩ := (hx n).mp hread
    obtain ⟨hend, rfl⟩ := (hasAt_leBytes_iff hw).mp ⟨hlt, hat⟩
    exact ⟨hend, rfl, ho⟩
  · rintro ⟨hend, rfl, ho⟩
    obtain ⟨hlt, hat⟩ := (hasAt_leBytes_iff hw).mpr ⟨hend, rfl⟩
    exact ⟨_, o', (hx _).mpr ⟨hlt, hat, ho⟩, rfl, rfl⟩

/-- **What a call that returns does.** It covers bytes below its bound only, returns what they spell
and moves past them, unless it peeks. -/
theorem Tight.run_ok_iff {c : Cursor} (h : c.Tight) {op : CursorOp} {o o' : Nat} {v : ReadValue} :
    op.run c o = .ok v o' ↔
      (op.size = 0 ∨ o + op.size ≤ c.bound op.strict) ∧
        v = op.decode (slice c.data o (o + op.size)) ∧ o' = o + op.advance := by
  -- an integer read covers at least one byte and is lenient
  have hlenient : ∀ w, 0 < w → ((w = 0 ∨ o + w ≤ c.bound false) ↔ o + w ≤ c.data.length) := by
    intro w hw
    rw [or_iff_right (by omega)]
    rfl
  cases op with
  | u8 field =>
    rw [CursorOp.run, run_int_ok_iff Nat.one_pos fun n => h.u8_ok_iff]
    exact and_congr_left' (hlenient 1 Nat.one_pos).symm
  | u16 field =>
    rw [CursorOp.run, run_int_ok_iff Nat.two_pos fun n => h.u16_ok_iff]
    exact and_congr_left' (hlenient 2 Nat.two_pos).symm
  | u32 field =>
    rw [CursorOp.run, run_int_ok_iff (Nat.succ_pos 3) fun n => h.u32_ok_iff]
    exact and_congr_left' (hlenient 4 (Nat.succ_pos 3)).symm
  | peekU32 field =>
    rw [CursorOp.run, @run_int_ok_iff c (c.peekU32 field) 4 0 o o' v (Nat.succ_pos 3)
      fun n => h.peekU32_ok_iff]
    exact and_congr_left' (hlenient 4 (Nat.succ_pos 3)).symm
  | take size field strict =>
    have hbound := h.bound_le strict
    simp only [CursorOp.run, run_bind_ok, run_pure_ok, h.take_ok_iff]
    constructor
    · rintro ⟨bs, _, ⟨rfl, hat, rfl, hend⟩, rfl, rfl⟩
      refine ⟨hend, ?_, rfl⟩
      show ReadValue.bytes bs = .bytes (slice c.data o (o + bs.length))
      rw [hasAt_iff_slice_eq.mp hat]
    · rintro ⟨hend, rfl, rfl⟩
      refine ⟨slice c.data o (o + size), _, ⟨?_, hasAt_slice _ _ _, rfl, hend⟩, rfl, rfl⟩
      change size = 0 ∨ o + size ≤ c.bound strict at hend
      rw [length_slice]
      omega

/-! ## One call fails -/

/-- The check of a size looks at the offset only, -/
theorem looksOnly_require (c : Cursor) (size : Nat) (field : String) (strict : Bool) :
    LooksOnly (c.require size field strict) := by
  unfold require
  refine looksOnly_get.bind fun offset => ?_
  split
  · exact looksOnly_pure _
  · split
    · exact looksOnly_pure _
    · exact looksOnly_throw _

/-- and so it refuses in place. -/
theorem refusesInPlace_require (c : Cursor) (size : Nat) (field : String) (strict : Bool) :
    RefusesInPlace (c.require size field strict) := by
  unfold require
  refine refusesInPlace_get_bind fun offset => ?_
  split
  · exact (neverRaises_pure _).refusesInPlace
  · split
    · exact (neverRaises_pure _).refusesInPlace
    · exact refusesInPlace_throw _

/-- So do unpacking -/
theorem refusesInPlace_unpack (c : Cursor) (width : Nat) : RefusesInPlace (c.unpack width) := by
  unfold unpack
  refine refusesInPlace_get_bind fun offset => ?_
  split
  · exact (neverRaises_pure _).refusesInPlace
  · exact refusesInPlace_throw _

/-- and indexing a byte. -/
theorem refusesInPlace_byteAt (c : Cursor) : RefusesInPlace c.byteAt := by
  unfold byteAt
  refine refusesInPlace_get_bind fun offset => ?_
  split
  · exact (neverRaises_pure _).refusesInPlace
  · exact refusesInPlace_throw _

/-- Advancing cannot fail. -/
theorem neverRaises_advance (size : Nat) : NeverRaises (advance size) :=
  neverRaises_get.bind fun offset => neverRaises_set (offset + size)

/-- The offset is moved last, after all that can fail. -/
theorem refusesInPlace_moveLast {α : Type} {x : CursorM α} (hx : RefusesInPlace x) (size : Nat) :
    RefusesInPlace (x >>= fun value => advance size >>= fun _ => pure value) :=
  hx.commit fun value => (neverRaises_advance size).bind fun _ => neverRaises_pure value

/-- Reading a number checks first and advances after, -/
theorem refusesInPlace_uint (c : Cursor) (width : Nat) (field : String) :
    RefusesInPlace (c.uint width field) :=
  (refusesInPlace_require c width field false).look (looksOnly_require c width field false)
    fun _ => refusesInPlace_moveLast (refusesInPlace_unpack c width) width

/-- reading a byte does, -/
theorem refusesInPlace_u8 (c : Cursor) (field : String) : RefusesInPlace (c.u8 field) :=
  (refusesInPlace_require c 1 field false).look (looksOnly_require c 1 field false)
    fun _ => refusesInPlace_moveLast (refusesInPlace_byteAt c) 1

/-- and so does taking bytes. -/
theorem refusesInPlace_take (c : Cursor) (size : Nat) (field : String) (strict : Bool) :
    RefusesInPlace (c.take size field strict) :=
  (refusesInPlace_require c size field strict).look (looksOnly_require c size field strict)
    fun _ => refusesInPlace_get_bind fun _ =>
      ((neverRaises_advance size).bind fun _ => neverRaises_pure _).refusesInPlace

/-- Peeking only checks. -/
theorem refusesInPlace_peekU32 (c : Cursor) (field : String) : RefusesInPlace (c.peekU32 field) :=
  (refusesInPlace_require c 4 field false).look (looksOnly_require c 4 field false)
    fun _ => refusesInPlace_unpack c 4

/-- **What a call that fails does**: it raises a `ValueError` and leaves the offset. -/
theorem Tight.run_error {c : Cursor} (h : c.Tight) {op : CursorOp} {o o' : Nat} {e : PyError}
    (herr : op.run c o = .error e o') : e.IsValueError ∧ o' = o := by
  have hboth : RaisesOnlyValueError (fun _ => True) (op.run c) ∧ RefusesInPlace (op.run c) := by
    cases op with
    | u8 field =>
      exact ⟨(h.u8_raises field _).andThen fun _ => raisesOnlyValueError_pure _,
        (refusesInPlace_u8 c field).commit fun _ => neverRaises_pure _⟩
    | u16 field =>
      exact ⟨(h.u16_raises field _).andThen fun _ => raisesOnlyValueError_pure _,
        (refusesInPlace_uint c 2 field).commit fun _ => neverRaises_pure _⟩
    | u32 field =>
      exact ⟨(h.u32_raises field _).andThen fun _ => raisesOnlyValueError_pure _,
        (refusesInPlace_uint c 4 field).commit fun _ => neverRaises_pure _⟩
    | take size field strict =>
      exact ⟨(take_raises c size field strict _).andThen fun _ => raisesOnlyValueError_pure _,
        (refusesInPlace_take c size field strict).commit fun _ => neverRaises_pure _⟩
    | peekU32 field =>
      exact ⟨(h.peekU32_raises field _).andThen fun _ => raisesOnlyValueError_pure _,
        (refusesInPlace_peekU32 c field).commit fun _ => neverRaises_pure _⟩
  exact ⟨hboth.1 o e o' trivial herr, hboth.2 o e o' herr⟩

/-! ## Any calls in any order -/

/-- **What holds of a call performed on a cursor.** The result is a value or an exception. -/
structure Sound (c : Cursor) (t : Performed CursorOp Nat (Py ReadValue)) : Prop where
  /-- The offset stays in the buffer. -/
  after_le : t.after ≤ c.data.length
  /-- The offset never decreases. -/
  before_le_after : t.before ≤ t.after
  /-- A failing call raises `ValueError` and leaves the offset. -/
  refused : ∀ e, t.result = .error e → e.IsValueError ∧ t.after = t.before
  /-- A successful call returns what the bytes it covers spell. -/
  decoded : ∀ v, t.result = .ok v →
    v = t.op.decode (slice c.data t.before (t.before + t.op.size))
  /-- A successful `take` returns exactly the bytes at the old offset and moves past them. -/
  taken : ∀ size field strict v, t.op = .take size field strict → t.result = .ok v →
    ∃ bs, v = .bytes bs ∧ bs.length = size ∧ HasAt c.data t.before bs ∧ t.after = t.before + size
  /-- What a successful call covers past the limit is the fill byte. -/
  fill : ∀ v i, t.result = .ok v → t.op.Covers t.before i → c.limit ≤ i →
    ∃ fill, c.fill = some fill ∧ c.data[i]? = some fill
  /-- A successful strict call covers nothing past the limit. -/
  strict : ∀ v i, t.result = .ok v → t.op.strict = true → t.op.Covers t.before i → i < c.limit

/-- **What holds of a run of calls on a new cursor.** -/
structure RunSound (c : Cursor) (ops : List CursorOp) : Prop where
  offsets_le : ∀ offset ∈ states c.call ops 0, offset ≤ c.data.length
  offsets_ascending : (states c.call ops 0).Pairwise (· ≤ ·)
  calls_sound : ∀ t ∈ trace c.call ops 0, c.Sound t

/-- On a tight cursor the bytes past the limit are fill, and without fill there are none. -/
theorem Tight.fill_of_limit_le {c : Cursor} (h : c.Tight) {i : Nat} (hi : c.limit ≤ i)
    (hlt : i < c.data.length) : ∃ fill, c.fill = some fill ∧ c.data[i]? = some fill := by
  cases hfill : c.fill with
  | none =>
    have hlimit := h.without_fill hfill
    omega
  | some fill => exact ⟨fill, rfl, h.past_limit fill hfill i hi hlt⟩

/-- A call that fails is sound. -/
theorem sound_of_error {c : Cursor} {op : CursorOp} {o : Nat} {e : PyError} (he : e.IsValueError)
    (ho : o ≤ c.data.length) : c.Sound ⟨op, o, .error e, o⟩ where
  after_le := ho
  before_le_after := le_rfl
  refused := by
    intro e' heq
    cases heq
    exact ⟨he, rfl⟩
  -- the other parts are about calls that return
  decoded := by
    intro v hok
    cases hok
  taken := by
    intro size field strict v _ hok
    cases hok
  fill := by
    intro v i hok
    cases hok
  strict := by
    intro v i hok
    cases hok

/-- A call that returns is sound. -/
theorem Tight.sound_of_ok {c : Cursor} (h : c.Tight) {op : CursorOp} {o : Nat}
    (ho : o ≤ c.data.length) (hend : op.size = 0 ∨ o + op.size ≤ c.bound op.strict) :
    c.Sound ⟨op, o, .ok (op.decode (slice c.data o (o + op.size))), o + op.advance⟩ := by
  have hbound := h.bound_le op.strict
  have hadvance := op.advance_le_size
  have hin : o + op.size ≤ c.data.length := by omega
  constructor
  case after_le =>
    show o + op.advance ≤ c.data.length
    omega
  case before_le_after => exact Nat.le_add_right o op.advance
  case refused =>
    intro e herr
    cases herr
  case decoded =>
    intro v hok
    cases hok
    rfl
  case taken =>
    intro size field strict v hop hok
    cases hok
    obtain rfl : op = .take size field strict := hop
    refine ⟨slice c.data o (o + size), rfl, ?_, hasAt_slice _ _ _, rfl⟩
    have hlength : (slice c.data o (o + size)).length = o + size - o := length_slice_of_le hin
    rw [hlength, Nat.add_sub_cancel_left]
  case fill =>
    intro v i _ hcovers hlimit
    exact h.fill_of_limit_le hlimit (hcovers.2.trans_le hin)
  case strict =>
    intro v i _ hstrict hcovers
    obtain ⟨hfirst, hlast⟩ : o ≤ i ∧ i < o + op.size := hcovers
    have hlimit : c.bound op.strict = c.limit := by
      rw [bound]
      exact if_pos hstrict
    -- a covered position rules out the empty read
    omega

/-- **Every call that starts in the buffer is sound.** -/
theorem Tight.sound {c : Cursor} (h : c.Tight) (op : CursorOp) (o : Nat) (ho : o ≤ c.data.length) :
    c.Sound (perform c.call op o) := by
  unfold perform call
  cases hrun : op.run c o with
  | error e o' =>
    obtain ⟨he, rfl⟩ := h.run_error hrun
    exact sound_of_error he ho
  | ok v o' =>
    obtain ⟨hend, rfl, rfl⟩ := h.run_ok_iff.mp hrun
    exact h.sound_of_ok ho hend

/-- **Every run on a tight cursor is sound.** -/
theorem Tight.runSound {c : Cursor} (h : c.Tight) (ops : List CursorOp) : c.RunSound ops := by
  have hkeep : ∀ op o, o ≤ c.data.length → (perform c.call op o).after ≤ c.data.length :=
    fun op o ho => (h.sound op o ho).after_le
  obtain ⟨hoffsets, hcalls⟩ := trace_invariant hkeep h.sound ops (Nat.zero_le c.data.length)
  refine ⟨hoffsets, ?_, hcalls⟩
  apply states_pairwise hkeep _ ops (Nat.zero_le c.data.length)
  intro op o ho
  exact (h.sound op o ho).before_le_after

end Cursor

/-- **The reader's invariant.** On the cursor of any buffer, padded or not, any calls in any order: the
offset stays in the buffer and never decreases, a failing call raises `ValueError` and leaves the
offset, `take` returns the bytes at the offset, and what is read past the limit is fill, which no
strict call reads. -/
theorem eventsCursor_runSound (data : Bytes) (what : String) (toleratePadding : Bool)
    (ops : List CursorOp) : (eventsCursor data what toleratePadding).RunSound ops :=
  (eventsCursor_tight data what toleratePadding).runSound ops

-- the last three bytes pass for fill: lenient reads cross into them, a strict one is refused
example : states (eventsCursor [0x08, 0x00, 0x00, 0x00] "log" true).call
    [.peekU32 "size", .take 2 "digest" true, .u16 "low", .u8 "high", .u32 "next"] 0
      = [0, 0, 0, 2, 3, 3] := by
  rfl

end CvmMeasure.Tcg
