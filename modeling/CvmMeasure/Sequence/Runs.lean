import Mathlib.Data.List.TakeWhile

/-! # A run of items and what stops it

A list is cut in one way only into items of one kind and a rest that does not go on with that kind, and
`takeWhile` and `dropWhile` find the cut.

* **`append_unique`**: the cut is unique;
* `takeWhile_append_stops`, `dropWhile_append_stops`: the two parts, found. -/

namespace CvmMeasure.Sequence

variable {α : Type} {P : α → Prop} {w w' y y' : List α}

/-- The list does not begin with an item of the kind. -/
def Stops (P : α → Prop) (y : List α) : Prop := ∀ x ∈ y.head?, ¬ P x

/-- The empty list begins with nothing. -/
theorem stops_nil : Stops P [] := fun _ hx => absurd hx (Option.not_mem_none _)

/-- A list may begin with an item of another kind. -/
theorem stops_cons {x : α} (hx : ¬ P x) (y : List α) : Stops P (x :: y) := by
  intro x' hx'
  obtain rfl := Option.mem_some_iff.mp hx'
  exact hx

/-- **A list is cut into a run and what stops it in one way only.** -/
theorem append_unique (h : w ++ y = w' ++ y') (hw : ∀ x ∈ w, P x) (hw' : ∀ x ∈ w', P x)
    (hy : Stops P y) (hy' : Stops P y') : w = w' ∧ y = y' := by
  induction w generalizing w' with
  | nil =>
    cases w' with
    | nil => exact ⟨rfl, h⟩
    | cons x' w' =>
      -- the item that goes on with the run would stand at the front of what stops it
      rw [List.nil_append, List.cons_append] at h
      rw [h] at hy
      exact absurd (hw' x' List.mem_cons_self) (hy x' rfl)
  | cons x w ih =>
    obtain ⟨hx, hws⟩ := List.forall_mem_cons.mp hw
    cases w' with
    | nil =>
      rw [List.nil_append, List.cons_append] at h
      rw [← h] at hy'
      exact absurd hx (hy' x rfl)
    | cons x' w' =>
      obtain ⟨rfl, htail⟩ := List.cons.inj h
      obtain ⟨rfl, rfl⟩ := ih htail hws fun z hz => hw' z (List.mem_cons_of_mem _ hz)
      exact ⟨rfl, rfl⟩

variable [DecidablePred P]

/-- `takeWhile` takes the run, -/
theorem takeWhile_append_stops (hw : ∀ x ∈ w, P x) (hy : Stops P y) :
    (w ++ y).takeWhile (fun x => P x) = w := by
  rw [List.takeWhile_append_of_pos fun x hx => decide_eq_true (hw x hx)]
  cases y with
  | nil => exact List.append_nil w
  | cons x y =>
    rw [List.takeWhile_cons, if_neg (by simpa using hy x rfl), List.append_nil]

/-- and `dropWhile` leaves what stops it. -/
theorem dropWhile_append_stops (hw : ∀ x ∈ w, P x) (hy : Stops P y) :
    (w ++ y).dropWhile (fun x => P x) = y := by
  rw [List.dropWhile_append_of_pos fun x hx => decide_eq_true (hw x hx)]
  cases y with
  | nil => rfl
  | cons x y => rw [List.dropWhile_cons, if_neg (by simpa using hy x rfl)]

/-- What `takeWhile` takes is of the kind. -/
theorem forall_mem_takeWhile (s : List α) : ∀ x ∈ s.takeWhile (fun x => P x), P x := by
  intro x hx
  exact of_decide_eq_true (p := P x) (@List.mem_takeWhile_imp α (fun x => P x) s x hx)

end CvmMeasure.Sequence
