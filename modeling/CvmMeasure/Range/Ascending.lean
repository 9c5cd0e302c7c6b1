import Mathlib.Algebra.Order.Ring.Nat
import Mathlib.Order.Interval.Set.Basic

/-! # Lists of half-open ranges

A pair `(a, b)` stands for the half-open range from `a` up to `b`. This file has the two orders such
lists come in and the rules of a left-to-right sweep over a linear order:

* **`covered`**: what some ranges cover; **`Ascending`**: non-empty ranges, each behind the one before;
* **`Follows`**: ranges of which each starts where the one before it ends;
* **`SweptBelow out S c`**: a sweep that has come to `c` has put out exactly the part of `S` below `c`.
  It goes on by emitting a range of `S` (`SweptBelow.emit`) or by passing over a range that `S` does
  not meet (`SweptBelow.skip`), and ends where nothing of `S` is left (`SweptBelow.finish`). -/

namespace CvmMeasure.Range

universe u

variable {α : Type u} [LinearOrder α]

/-! ## What ranges cover -/

/-- The points that lie in some of the ranges. -/
def covered (rs : List (α × α)) : Set α := {x | ∃ r ∈ rs, r.1 ≤ x ∧ x < r.2}

/-- A point is covered if it lies in one of the ranges. -/
theorem mem_covered {rs : List (α × α)} {x : α} :
    x ∈ covered rs ↔ ∃ r ∈ rs, r.1 ≤ x ∧ x < r.2 := Iff.rfl

/-- The empty list covers nothing. -/
@[simp] theorem mem_covered_nil {x : α} : x ∈ covered ([] : List (α × α)) ↔ False := by
  simp [mem_covered]

/-- The first range covers it, or the others do. -/
@[simp] theorem mem_covered_cons {r : α × α} {rs : List (α × α)} {x : α} :
    x ∈ covered (r :: rs) ↔ (r.1 ≤ x ∧ x < r.2) ∨ x ∈ covered rs := by
  simp [mem_covered]

/-- The ranges of one list cover it, or those of the other. -/
@[simp] theorem mem_covered_append {rs ss : List (α × α)} {x : α} :
    x ∈ covered (rs ++ ss) ↔ x ∈ covered rs ∨ x ∈ covered ss := by
  simp [mem_covered, or_and_right, exists_or]

/-- The order of the ranges does not matter for what they cover. -/
theorem mem_covered_perm {rs ss : List (α × α)} (h : rs.Perm ss) {x : α} :
    x ∈ covered rs ↔ x ∈ covered ss := by
  simp only [mem_covered, h.mem_iff]

/-! ## Ascending ranges -/

/-- Non-empty ranges, each of which ends before the later ones start. -/
structure Ascending (rs : List (α × α)) : Prop where
  nonempty : ∀ r ∈ rs, r.1 < r.2
  ordered : rs.Pairwise fun r s => r.2 ≤ s.1

/-- The empty list is ascending. -/
theorem Ascending.nil : Ascending ([] : List (α × α)) := ⟨by simp, List.Pairwise.nil⟩

/-- A range may be put behind ascending ranges that end before it. -/
theorem Ascending.concat {rs : List (α × α)} (h : Ascending rs) {a b : α}
    (hle : ∀ r ∈ rs, r.2 ≤ a) (hlt : a < b) : Ascending (rs ++ [(a, b)]) := by
  constructor
  · intro r hr
    rcases List.mem_append.mp hr with hr | hr
    · exact h.nonempty r hr
    · obtain rfl := List.mem_singleton.mp hr
      exact hlt
  · apply List.pairwise_append.mpr
    refine ⟨h.ordered, List.pairwise_singleton _ _, ?_⟩
    intro r hr s hs
    obtain rfl := List.mem_singleton.mp hs
    exact hle r hr

/-! ## Ranges that follow one another -/

/-- The ranges lead from `a` to `b`, each starting where the one before it ends. -/
def Follows : α → List (α × α) → α → Prop
  | a, [], b => a = b
  | a, r :: rs, b => r.1 = a ∧ r.1 ≤ r.2 ∧ Follows r.2 rs b

/-- Where the ranges end is not before where they start. -/
theorem Follows.le {rs : List (α × α)} {a b : α} (h : Follows a rs b) : a ≤ b := by
  induction rs generalizing a with
  | nil => exact le_of_eq h
  | cons r rs ih =>
    obtain ⟨rfl, hle, hrest⟩ := h
    exact hle.trans (ih hrest)

/-- Two runs of ranges that meet are one run. -/
theorem Follows.append {rs ss : List (α × α)} {a b c : α} (h : Follows a rs b)
    (h' : Follows b ss c) : Follows a (rs ++ ss) c := by
  induction rs generalizing a with
  | nil =>
    obtain rfl : a = b := h
    exact h'
  | cons r rs ih =>
    obtain ⟨hstart, hle, hrest⟩ := h
    exact ⟨hstart, hle, ih hrest⟩

/-- A run may be continued by a range that starts where it ends. -/
theorem Follows.concat {rs : List (α × α)} {a b c : α} (h : Follows a rs b) (hle : b ≤ c) :
    Follows a (rs ++ [(b, c)]) c :=
  h.append ⟨rfl, hle, rfl⟩

/-- The ranges of a run lie between its ends. -/
theorem Follows.bounds {rs : List (α × α)} {a b : α} (h : Follows a rs b) :
    ∀ r ∈ rs, a ≤ r.1 ∧ r.2 ≤ b := by
  induction rs generalizing a with
  | nil => simp
  | cons r rs ih =>
    obtain ⟨rfl, hle, hrest⟩ := h
    intro s hs
    rcases List.mem_cons.mp hs with rfl | hs
    · exact ⟨le_rfl, hrest.le⟩
    · obtain ⟨hstart, hstop⟩ := ih hrest s hs
      exact ⟨hle.trans hstart, hstop⟩

/-- A run of non-empty ranges is ascending. -/
theorem Follows.ascending {rs : List (α × α)} {a b : α} (h : Follows a rs b)
    (hne : ∀ r ∈ rs, r.1 < r.2) : Ascending rs := by
  refine ⟨hne, ?_⟩
  induction rs generalizing a with
  | nil => exact List.Pairwise.nil
  | cons r rs ih =>
    obtain ⟨rfl, -, hrest⟩ := h
    apply List.pairwise_cons.mpr
    refine ⟨fun s hs => (hrest.bounds s hs).1, ?_⟩
    exact ih hrest fun s hs => hne s (List.mem_cons_of_mem r hs)

/-- A run covers the interval it leads through. -/
theorem Follows.mem_covered {rs : List (α × α)} {a b x : α} (h : Follows a rs b) :
    x ∈ covered rs ↔ a ≤ x ∧ x < b := by
  induction rs generalizing a with
  | nil =>
    obtain rfl : a = b := h
    simp
  | cons r rs ih =>
    obtain ⟨rfl, hle, hrest⟩ := h
    rw [mem_covered_cons, ih hrest]
    constructor
    · rintro (⟨hstart, hstop⟩ | ⟨hstart, hstop⟩)
      · exact ⟨hstart, hstop.trans_le hrest.le⟩
      · exact ⟨hle.trans hstart, hstop⟩
    · rintro ⟨hstart, hstop⟩
      rcases lt_or_ge x r.2 with hlt | hge
      · exact Or.inl ⟨hstart, hlt⟩
      · exact Or.inr ⟨hge, hstop⟩

/-- The sizes of a run of ranges add up to the distance it leads. -/
theorem Follows.add_sum_size {rs : List (Nat × Nat)} {a b : Nat} (h : Follows a rs b) :
    a + (rs.map fun r => r.2 - r.1).sum = b := by
  induction rs generalizing a with
  | nil => exact h
  | cons r rs ih =>
    obtain ⟨rfl, hle, hrest⟩ := h
    have := ih hrest
    rw [List.map_cons, List.sum_cons]
    omega

/-! ## Sweeps -/

/-- The range from `a` up to `b` put behind others, unless it is empty. -/
def emit (rs : List (α × α)) (a b : α) : List (α × α) := if a < b then rs ++ [(a, b)] else rs

/-- **The invariant of a sweep** that has come to `c`: its output is the part of `S` below `c`, as
ascending ranges. -/
structure SweptBelow (out : List (α × α)) (S : Set α) (c : α) : Prop where
  ascending : Ascending out
  stop_le : ∀ r ∈ out, r.2 ≤ c
  mem_iff : ∀ x, x ∈ covered out ↔ x ∈ S ∧ x < c

section Sweep

variable {out : List (α × α)} {S : Set α} {a b : α}

/-- Nothing has been put out where nothing of `S` lies below. -/
theorem SweptBelow.start (h : ∀ x ∈ S, a ≤ x) : SweptBelow [] S a := by
  refine ⟨Ascending.nil, by simp, fun x => ?_⟩
  rw [mem_covered_nil, false_iff, not_and, not_lt]
  exact h x

/-- A sweep emits a range that lies in `S`. -/
theorem SweptBelow.emit (h : SweptBelow out S a) (hle : a ≤ b)
    (hS : ∀ x, a ≤ x → x < b → x ∈ S) : SweptBelow (emit out a b) S b := by
  unfold Range.emit
  by_cases hlt : a < b
  · rw [if_pos hlt]
    refine ⟨h.ascending.concat h.stop_le hlt, ?_, fun x => ?_⟩
    · intro r hr
      rcases List.mem_append.mp hr with hr | hr
      · exact (h.stop_le r hr).trans hle
      · obtain rfl := List.mem_singleton.mp hr
        exact le_rfl
    · -- below `a` as before, from `a` on the emitted range
      rw [mem_covered_append, h.mem_iff, mem_covered_cons, mem_covered_nil, or_false]
      constructor
      · rintro (⟨hx, hxa⟩ | ⟨hax, hxb⟩)
        · exact ⟨hx, hxa.trans hlt⟩
        · exact ⟨hS x hax hxb, hxb⟩
      · rintro ⟨hx, hxb⟩
        rcases lt_or_ge x a with hxa | hax
        · exact Or.inl ⟨hx, hxa⟩
        · exact Or.inr ⟨hax, hxb⟩
  · obtain rfl := le_antisymm hle (not_lt.mp hlt)
    rw [if_neg hlt]
    exact h

/-- A sweep passes over a range that does not meet `S`. -/
theorem SweptBelow.skip (h : SweptBelow out S a) (hle : a ≤ b)
    (hS : ∀ x, a ≤ x → x < b → x ∉ S) : SweptBelow out S b := by
  refine ⟨h.ascending, fun r hr => (h.stop_le r hr).trans hle, fun x => ?_⟩
  rw [h.mem_iff]
  constructor
  · rintro ⟨hx, hxa⟩
    exact ⟨hx, hxa.trans_le hle⟩
  · rintro ⟨hx, hxb⟩
    refine ⟨hx, ?_⟩
    by_contra hax
    exact hS x (not_lt.mp hax) hxb hx

/-- A sweep has put out all of `S` where nothing of `S` is left. -/
theorem SweptBelow.finish (h : SweptBelow out S a) (hS : ∀ x, a ≤ x → x ∉ S) (x : α) :
    x ∈ covered out ↔ x ∈ S := by
  rw [h.mem_iff]
  refine ⟨fun hx => hx.1, fun hx => ⟨hx, ?_⟩⟩
  by_contra hax
  exact hS x (not_lt.mp hax) hx

end Sweep

end CvmMeasure.Range
