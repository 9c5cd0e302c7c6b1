import CvmMeasure.Python.Exceptions
import Mathlib.Logic.Basic
import Mathlib.Tactic.ByContra

/-! # How a run ends

A run that packs numbers into fixed-width fields and makes byte strings of a given length ends in one of four
ways: it returns, a number does not fit its field (`struct.error`), a byte string would be too long
(`OverflowError`), or it is refused (`ValueError`). `Outcome x returns overflows exceeds` names the conditions of
the first three, and the rules follow the statements of the function.

* **`Outcome.bind`**: a sequence returns if both parts do, and otherwise ends as the first part that does not
  return;
* `outcome_refuse`, `outcome_pack`, `outcome_onlyValueError`: one statement; **`outcome_loop`**: a loop over a
  list;
* `Outcome.returns_of_ok`, `Outcome.iff_overflows`, `Outcome.iff_exceeds`, `Outcome.iff_refused`: the conditions
  are exact. -/

namespace CvmMeasure.Python

/-- The run returns if `returns`, raises `struct.error` if `overflows`, `OverflowError` if `exceeds`, and
`ValueError` otherwise. -/
structure Outcome {α : Type} (x : Py α) (returns overflows exceeds : Prop) : Prop where
  of_returns : returns → ∃ a, x = .ok a
  of_overflows : overflows → ∃ message, x = .error (.structError message)
  of_exceeds : exceeds → ∃ message, x = .error (.overflowError message)
  otherwise : ¬ returns → ¬ overflows → ¬ exceeds → ∃ message, x = .error (.valueError message)

variable {α β γ : Type} {x : Py α} {r o e r' o' e' : Prop}

namespace Outcome

/-- One of the four ways is taken. -/
theorem ways (h : Outcome x r o e) :
    (r ∧ ∃ a, x = .ok a) ∨ (o ∧ ∃ message, x = .error (.structError message)) ∨
      (e ∧ ∃ message, x = .error (.overflowError message)) ∨
      ((¬ r ∧ ¬ o ∧ ¬ e) ∧ ∃ message, x = .error (.valueError message)) := by
  by_cases hr : r
  · exact Or.inl ⟨hr, h.of_returns hr⟩
  by_cases ho : o
  · exact Or.inr (Or.inl ⟨ho, h.of_overflows ho⟩)
  by_cases he : e
  · exact Or.inr (Or.inr (Or.inl ⟨he, h.of_exceeds he⟩))
  · exact Or.inr (Or.inr (Or.inr ⟨⟨hr, ho, he⟩, h.otherwise hr ho he⟩))

/-- A run that returns meets the condition. -/
theorem returns_of_ok (h : Outcome x r o e) {a : α} (ha : x = .ok a) : r := by
  rcases h.ways with ⟨hr, -⟩ | ⟨-, _, herror⟩ | ⟨-, _, herror⟩ | ⟨-, _, herror⟩
  · exact hr
  all_goals cases ha.symm.trans herror

/-- The condition to overflow is exact. -/
theorem iff_overflows (h : Outcome x r o e) : (∃ message, x = .error (.structError message)) ↔ o := by
  refine ⟨?_, h.of_overflows⟩
  rintro ⟨message, herror⟩
  rcases h.ways with ⟨-, _, hother⟩ | ⟨ho, -⟩ | ⟨-, _, hother⟩ | ⟨-, _, hother⟩
  case inr.inl => exact ho
  all_goals cases herror.symm.trans hother

/-- The condition to exceed the longest byte string is exact. -/
theorem iff_exceeds (h : Outcome x r o e) : (∃ message, x = .error (.overflowError message)) ↔ e := by
  refine ⟨?_, h.of_exceeds⟩
  rintro ⟨message, herror⟩
  rcases h.ways with ⟨-, _, hother⟩ | ⟨-, _, hother⟩ | ⟨he, -⟩ | ⟨-, _, hother⟩
  case inr.inr.inl => exact he
  all_goals cases herror.symm.trans hother

/-- A run that ends in none of the other ways is refused, and only such a run. -/
theorem iff_refused (h : Outcome x r o e) :
    (∃ message, x = .error (.valueError message)) ↔ ¬ r ∧ ¬ o ∧ ¬ e := by
  constructor
  · rintro ⟨message, herror⟩
    rcases h.ways with ⟨-, _, hother⟩ | ⟨-, _, hother⟩ | ⟨-, _, hother⟩ | ⟨hnone, -⟩
    case inr.inr.inr => exact hnone
    all_goals cases herror.symm.trans hother
  · rintro ⟨hr, ho, he⟩
    exact h.otherwise hr ho he

/-- The conditions may be restated. -/
theorem congr (h : Outcome x r o e) (hr : r ↔ r') (ho : o ↔ o') (he : e ↔ e') : Outcome x r' o' e' := by
  rwa [← hr, ← ho, ← he]

/-- A sequence returns if both parts return, and otherwise ends as the first part that does not return. -/
theorem bind {f : α → Py β} (hx : Outcome x r o e) (hf : ∀ a, x = .ok a → Outcome (f a) r' o' e') :
    Outcome (x >>= f) (r ∧ r') (o ∨ r ∧ o') (e ∨ r ∧ e') := by
  constructor
  case of_returns =>
    rintro ⟨hr, hr'⟩
    obtain ⟨a, ha⟩ := hx.of_returns hr
    rw [ha, ok_bind]
    exact (hf a ha).of_returns hr'
  case of_overflows =>
    rintro (ho | ⟨hr, ho'⟩)
    · obtain ⟨message, herror⟩ := hx.of_overflows ho
      exact ⟨message, by rw [herror, error_bind]⟩
    · obtain ⟨a, ha⟩ := hx.of_returns hr
      rw [ha, ok_bind]
      exact (hf a ha).of_overflows ho'
  case of_exceeds =>
    rintro (he | ⟨hr, he'⟩)
    · obtain ⟨message, herror⟩ := hx.of_exceeds he
      exact ⟨message, by rw [herror, error_bind]⟩
    · obtain ⟨a, ha⟩ := hx.of_returns hr
      rw [ha, ok_bind]
      exact (hf a ha).of_exceeds he'
  case otherwise =>
    intro hreturns hoverflows hexceeds
    obtain ⟨ho, hro'⟩ := not_or.mp hoverflows
    obtain ⟨he, hre'⟩ := not_or.mp hexceeds
    by_cases hr : r
    · obtain ⟨a, ha⟩ := hx.of_returns hr
      rw [ha, ok_bind]
      exact (hf a ha).otherwise (fun hr' => hreturns ⟨hr, hr'⟩) (fun ho' => hro' ⟨hr, ho'⟩)
        fun he' => hre' ⟨hr, he'⟩
    · obtain ⟨message, herror⟩ := hx.otherwise hr ho he
      exact ⟨message, by rw [herror, error_bind]⟩

/-- A sequence of two parts that overflow whenever they do not return. -/
theorem bindNot {f : α → Py β} (hx : Outcome x r (¬ r) False)
    (hf : ∀ a, x = .ok a → Outcome (f a) r' (¬ r') False) :
    Outcome (x >>= f) (r ∧ r') (¬ (r ∧ r')) False := by
  refine (hx.bind hf).congr Iff.rfl ?_ (by simp)
  rw [not_and_or, or_and_left]
  exact ⟨And.right, fun h => ⟨(Classical.em r).symm, h⟩⟩

/-- What is done with the value does not change how the run ends. -/
theorem andPure (hx : Outcome x r o e) (f : α → β) :
    Outcome (x >>= fun a => (pure (f a) : Py β)) r o e := by
  have hpure : ∀ a, x = .ok a → Outcome (pure (f a) : Py β) True False False := by
    intro a _
    exact ⟨fun _ => ⟨f a, rfl⟩, False.elim, False.elim, fun h => absurd trivial h⟩
  exact (hx.bind hpure).congr (iff_of_eq (and_true r)) (by simp) (by simp)

end Outcome

/-- A refusal returns if its condition fails. -/
theorem outcome_refuse (c : Prop) [Decidable c] (message : String) :
    Outcome (refuseIf c (.valueError message)) (¬ c) False False := by
  constructor
  case of_returns => exact fun h => ⟨(), refuseIf_of_not h _⟩
  case of_overflows => exact False.elim
  case of_exceeds => exact False.elim
  case otherwise => exact fun h _ _ => ⟨message, refuseIf_of (not_not.mp h) _⟩

/-- What stands behind a refusal is run if its condition fails. -/
theorem outcome_refuse_andThen {c : Prop} [Decidable c] {message : String}
    (h : ¬ c → Outcome x r o e) :
    Outcome (refuseIf c (.valueError message) >>= fun _ => x) (¬ c ∧ r) (¬ c ∧ o) (¬ c ∧ e) := by
  refine ((outcome_refuse c message).bind fun _ hc => h (refuseIf_eq_ok.mp hc)).congr Iff.rfl ?_ ?_
  · exact iff_of_eq (false_or _)
  · exact iff_of_eq (false_or _)

/-- A width check overflows if its condition holds. -/
theorem outcome_pack (c : Prop) [Decidable c] (message : String) :
    Outcome (refuseIf c (.structError message)) (¬ c) c False := by
  constructor
  case of_returns => exact fun h => ⟨(), refuseIf_of_not h _⟩
  case of_overflows => exact fun h => ⟨message, refuseIf_of h _⟩
  case of_exceeds => exact False.elim
  case otherwise => exact fun h h' => absurd h' h

/-- A run that returns. -/
theorem outcome_pure (a : α) : Outcome (pure a : Py α) True False False :=
  ⟨fun _ => ⟨a, rfl⟩, False.elim, False.elim, fun h => absurd trivial h⟩

/-- A run that raises nothing but `ValueError` has no other condition than to return. -/
theorem outcome_onlyValueError (h : OnlyValueError x) : Outcome x (∃ a, x = .ok a) False False := by
  constructor
  case of_returns => exact id
  case of_overflows => exact False.elim
  case of_exceeds => exact False.elim
  case otherwise => exact fun hreturns _ _ => h.ok_or_valueError.resolve_left hreturns

/-- A loop whose rounds overflow whenever they do not return: it returns if all its rounds do. -/
theorem outcome_loop (loop : List α → Py γ) {step : α → Py β} {join : β → γ → γ} {last : γ}
    (hnil : loop [] = pure last)
    (hcons : ∀ a as, loop (a :: as) = step a >>= fun b => loop as >>= fun c => pure (join b c))
    {P : α → Prop} {as : List α} (h : ∀ a ∈ as, Outcome (step a) (P a) (¬ P a) False) :
    Outcome (loop as) (∀ a ∈ as, P a) (¬ ∀ a ∈ as, P a) False := by
  induction as with
  | nil =>
    have hall : ∀ a ∈ ([] : List α), P a := fun _ ha => absurd ha List.not_mem_nil
    rw [hnil]
    exact (outcome_pure last).congr (iff_of_true trivial hall) (iff_of_false id (not_not.mpr hall)) Iff.rfl
  | cons a as ih =>
    obtain ⟨hstep, hsteps⟩ := List.forall_mem_cons.mp h
    rw [hcons, List.forall_mem_cons]
    exact hstep.bindNot fun b _ => (ih hsteps).andPure (join b)

end CvmMeasure.Python
