import CvmMeasure.Range.Ascending
import Mathlib.Data.List.Basic

/-! # Positions of ranges

Ranges of positions in a list, taken one after the other:

* **`positions`**: the positions of some ranges, in the order of the ranges;
* **`deleteRanges d cuts`**: the list `d` without the elements at the positions of `cuts`;
* **`Follows.positions_kept`**: where pieces that follow one another are each kept or dropped, the
  positions of those kept are all positions in order but those dropped. -/

namespace CvmMeasure.Range

universe u

/-- The positions of the ranges, range by range. -/
def positions (rs : List (Nat × Nat)) : List Nat := rs.flatMap fun r => List.range' r.1 (r.2 - r.1)

/-- The positions of the first range, and those of the others. -/
@[simp] theorem positions_cons (r : Nat × Nat) (rs : List (Nat × Nat)) :
    positions (r :: rs) = List.range' r.1 (r.2 - r.1) ++ positions rs := rfl

/-- The positions of two lists of ranges. -/
theorem positions_append (rs ss : List (Nat × Nat)) :
    positions (rs ++ ss) = positions rs ++ positions ss :=
  List.flatMap_append

/-- The position lies in none of the ranges. -/
def outside (cuts : List (Nat × Nat)) (i : Nat) : Bool := cuts.all fun s => i < s.1 || s.2 ≤ i

/-- A position is outside if no cut holds it. -/
theorem outside_iff {cuts : List (Nat × Nat)} {i : Nat} :
    outside cuts i = true ↔ ∀ s ∈ cuts, ¬ (s.1 ≤ i ∧ i < s.2) := by
  simp only [outside, List.all_eq_true, Bool.or_eq_true, decide_eq_true_eq, not_and_or, not_le, not_lt]

/-! ## Pieces that are kept or dropped -/

/-- The pieces that are kept. -/
def kept (pieces : List ((Nat × Nat) × Bool)) : List (Nat × Nat) :=
  (pieces.filter fun p => p.2).map Prod.fst

/-- The pieces that are dropped. -/
def dropped (pieces : List ((Nat × Nat) × Bool)) : List (Nat × Nat) :=
  (pieces.filter fun p => !p.2).map Prod.fst

/-- What is dropped is one of the pieces. -/
theorem dropped_subset (pieces : List ((Nat × Nat) × Bool)) :
    ∀ s ∈ dropped pieces, s ∈ pieces.map Prod.fst := by
  intro s hs
  obtain ⟨p, hp, rfl⟩ := List.mem_map.mp hs
  exact List.mem_map_of_mem (List.mem_filter.mp hp).1

/-- **Keeping pieces is deleting the others.** -/
theorem Follows.positions_kept {pieces : List ((Nat × Nat) × Bool)} {a b : Nat}
    (h : Follows a (pieces.map Prod.fst) b) :
    positions (kept pieces) = (List.range' a (b - a)).filter (outside (dropped pieces)) := by
  induction pieces generalizing a with
  | nil =>
    obtain rfl : a = b := h
    rw [Nat.sub_self]
    rfl
  | cons piece pieces ih =>
    obtain ⟨⟨start, stop⟩, keep⟩ := piece
    obtain ⟨rfl, hle, hrest⟩ := h
    dsimp only at hle hrest ⊢
    have hstop := hrest.le
    have hsplit : List.range' start (b - start)
        = List.range' start (stop - start) ++ List.range' stop (b - stop) := by
      obtain ⟨m, rfl⟩ := Nat.exists_eq_add_of_le hle
      rw [Nat.add_sub_cancel_left, List.range'_append_1]
      congr 1
      omega
    -- the pieces behind start where this one ends
    have hbehind : ∀ s ∈ dropped pieces, stop ≤ s.1 :=
      fun s hs => (hrest.bounds s (dropped_subset pieces s hs)).1
    rw [hsplit, List.filter_append]
    cases keep with
    | true =>
      show List.range' start (stop - start) ++ positions (kept pieces) = _
      have hall : (List.range' start (stop - start)).filter (outside (dropped pieces))
          = List.range' start (stop - start) := by
        apply List.filter_eq_self.mpr
        intro i hi
        apply outside_iff.mpr
        rintro s hs ⟨hsi, -⟩
        have hi' := List.mem_range'_1.mp hi
        have := hbehind s hs
        omega
      rw [ih hrest]
      show _ = (List.range' start (stop - start)).filter (outside (dropped pieces))
        ++ (List.range' stop (b - stop)).filter (outside (dropped pieces))
      rw [hall]
    | false =>
      show positions (kept pieces) = _
      have hnone : (List.range' start (stop - start)).filter
          (outside ((start, stop) :: dropped pieces)) = [] := by
        apply List.filter_eq_nil_iff.mpr
        intro i hi hout
        have hi' := List.mem_range'_1.mp hi
        exact outside_iff.mp hout (start, stop) List.mem_cons_self ⟨hi'.1, by omega⟩
      have hsame : (List.range' stop (b - stop)).filter (outside ((start, stop) :: dropped pieces))
          = (List.range' stop (b - stop)).filter (outside (dropped pieces)) := by
        apply List.filter_congr
        intro i hi
        have hi' := List.mem_range'_1.mp hi
        have hle' : decide (stop ≤ i) = true := decide_eq_true hi'.1
        simp [outside, hle']
      rw [ih hrest]
      show _ = (List.range' start (stop - start)).filter (outside ((start, stop) :: dropped pieces))
        ++ (List.range' stop (b - stop)).filter (outside ((start, stop) :: dropped pieces))
      rw [hnone, hsame, List.nil_append]

/-! ## The elements at positions -/

variable {β : Type u}

/-- The elements of a list at some positions. -/
def select (d : List β) (is : List Nat) : List β := is.filterMap fun i => d[i]?

/-- Elements are selected position by position. -/
theorem select_append (d : List β) (is js : List Nat) :
    select d (is ++ js) = select d is ++ select d js :=
  List.filterMap_append

/-- The elements at consecutive positions. -/
theorem select_range' (d : List β) (a n : Nat) : select d (List.range' a n) = (d.drop a).take n := by
  induction n generalizing a with
  | zero => rfl
  | succ n ih =>
    rw [List.range'_succ, select, List.filterMap_cons]
    by_cases hlt : a < d.length
    · rw [List.getElem?_eq_getElem hlt, List.drop_eq_getElem_cons hlt, List.take_succ_cons]
      exact congrArg (d[a] :: ·) (ih (a + 1))
    · -- past the end there is nothing left
      have hdrop : ∀ b, a ≤ b → d.drop b = [] := fun b hb => List.drop_eq_nil_of_le (by omega)
      rw [List.getElem?_eq_none (by omega), hdrop a le_rfl]
      have := ih (a + 1)
      rw [hdrop (a + 1) (by omega)] at this
      simpa [select] using this

/-- The list without the elements at the positions of some ranges. -/
def deleteRanges (d : List β) (cuts : List (Nat × Nat)) : List β :=
  select d ((List.range d.length).filter (outside cuts))

end CvmMeasure.Range
