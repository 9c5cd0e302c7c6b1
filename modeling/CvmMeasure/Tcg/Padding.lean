import CvmMeasure.Tcg.ParseEvents

/-! # Where trailing fill begins

`_padding_start` guesses the end of a padded log by stripping fill from the end of the buffer, so it
may cut into the log's own bytes. These lemmas bound the guess from both sides: it never lies beyond
bytes followed by fill (`paddingStart_append_run_le`), and it lies beyond every byte that is no fill
byte (`lt_paddingStart_of_getElem?`). -/

namespace CvmMeasure.Tcg

open Binary Python

/-- The fill boundary of a buffer. -/
abbrev fillBoundary (data : Bytes) : Nat := (paddingStart data).1

/-- A cursor that tolerates padding ends where the fill begins, -/
theorem eventsCursor_limit (data : Bytes) (what : String) :
    (eventsCursor data what true).limit = fillBoundary data := rfl

/-- over the same data. -/
@[simp] theorem eventsCursor_data (data : Bytes) (what : String) (toleratePadding : Bool) :
    (eventsCursor data what toleratePadding).data = data := by
  cases toleratePadding <;> rfl

/-- The fill begins inside the data, or at its end. -/
theorem fillBoundary_le (data : Bytes) : fillBoundary data ≤ data.length :=
  (eventsCursor_tight data "" true).limit_le

/-- The fill byte is one of the padding bytes. -/
theorem paddingStart_fill_mem {data : Bytes} {pad : UInt8} (h : (paddingStart data).2 = some pad) :
    pad ∈ paddingBytes := by
  unfold paddingStart at h
  split at h
  · rename_i p hfind
    obtain rfl : p = pad := by simpa using h
    exact List.mem_of_find?_eq_some hfind
  · simp at h

/-- **The boundary is at most where a run of fill begins.** -/
theorem paddingStart_append_run_le (x : Bytes) {pad : UInt8} (hpad : pad ∈ paddingBytes) (n : Nat) :
    fillBoundary (x ++ List.replicate n pad) ≤ x.length := by
  cases n with
  | zero =>
    have := fillBoundary_le (x ++ List.replicate 0 pad)
    simpa using this
  | succ n =>
    have hstrip : (rstrip pad (x ++ List.replicate (n + 1) pad)).length ≤ x.length := by
      rw [rstrip_append_run]
      exact length_rstrip_le pad x
    have hlast : (x ++ List.replicate (n + 1) pad).getLast? = some pad := by
      rw [List.replicate_succ', ← List.append_assoc, List.getLast?_concat]
    -- only the byte the buffer ends in can be stripped
    have hfind : paddingBytes.find? (fun p => (rstrip p (x ++ List.replicate (n + 1) pad)).length
        != (x ++ List.replicate (n + 1) pad).length) = some pad := by
      have hiff : ∀ p, ((rstrip p (x ++ List.replicate (n + 1) pad)).length
          != (x ++ List.replicate (n + 1) pad).length) = decide (p = pad) := by
        intro p
        rw [Bool.eq_iff_iff, bne_iff_ne, decide_eq_true_eq, rstrip_ne_self_iff, hlast,
          Option.some.injEq, eq_comm]
      simp only [hiff]
      simp only [paddingBytes, List.mem_cons, List.not_mem_nil, or_false] at hpad
      rcases hpad with rfl | rfl <;> decide
    unfold fillBoundary paddingStart
    rw [hfind]
    exact hstrip

/-- Past the boundary the buffer is a run of one padding byte. -/
theorem hasAt_of_fillBoundary_le {data : Bytes} {o n : Nat} (ho : fillBoundary data ≤ o)
    (hlt : o < data.length) (hn : o + n ≤ data.length) :
    ∃ pad ∈ paddingBytes, HasAt data o (List.replicate n pad) := by
  have htight := eventsCursor_tight data "" true
  have hfill : (eventsCursor data "" true).fill = (paddingStart data).2 := rfl
  cases hcase : (paddingStart data).2 with
  | none =>
    -- without fill nothing lies past the boundary
    have hlimit := htight.without_fill (hfill.trans hcase)
    rw [eventsCursor_limit, eventsCursor_data] at hlimit
    omega
  | some pad =>
    -- the cursor of the buffer is tight: each byte of the slice is the fill byte
    refine ⟨pad, paddingStart_fill_mem hcase, ?_⟩
    rw [hasAt_iff_slice_eq, List.length_replicate, List.eq_replicate_iff]
    refine ⟨by rw [length_slice_of_le hn]; omega, ?_⟩
    intro b hb
    obtain ⟨i, hi, rfl⟩ := List.mem_iff_getElem.mp hb
    rw [length_slice_of_le hn] at hi
    have hpast := htight.past_limit pad (hfill.trans hcase) (o + i)
      (by rw [eventsCursor_limit]; omega) (by rw [eventsCursor_data]; omega)
    rw [eventsCursor_data, List.getElem?_eq_getElem (by omega), Option.some.injEq] at hpast
    simpa [slice] using hpast

/-- **Every byte that is no fill byte lies before the boundary.** -/
theorem lt_paddingStart_of_getElem? {data : Bytes} {i : Nat} {b : UInt8} (hb : data[i]? = some b)
    (hpad : b ∉ paddingBytes) : i < fillBoundary data := by
  by_contra hle
  obtain ⟨hlt, -⟩ := List.getElem?_eq_some_iff.mp hb
  obtain ⟨pad, hmem, hat⟩ := hasAt_of_fillBoundary_le (n := 1) (Nat.le_of_not_lt hle) hlt (by omega)
  have := hat.getElem? (i := 0) (by simp)
  rw [Nat.add_zero, hb] at this
  simp only [List.replicate_one, List.getElem?_cons_zero, Option.some.injEq] at this
  exact hpad (this ▸ hmem)

end CvmMeasure.Tcg
