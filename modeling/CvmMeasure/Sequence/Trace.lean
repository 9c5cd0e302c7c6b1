import Mathlib.Data.List.Basic
import Mathlib.Order.Defs.PartialOrder

/-! # Runs of operations

A machine performs a list of operations one after the other: each has a result, good or bad, and leaves a
state to the next. What one operation keeps from every state with the invariant, a run keeps.

* **`trace`**, **`states`**: the operations performed and the states passed through;
* **`trace_invariant`**: from one operation to all runs;
* **`states_pairwise`**: states that never decrease in one operation never decrease in a run. -/

namespace CvmMeasure.Sequence

universe u v w

variable {ι : Type u} {σ : Type v} {ρ : Type w}

/-- An operation performed: the state it found, what it gave and the state it left. -/
structure Performed (ι : Type u) (σ : Type v) (ρ : Type w) where
  op : ι
  before : σ
  result : ρ
  after : σ

variable (step : ι → σ → ρ × σ)

/-- One operation. -/
def perform (op : ι) (s : σ) : Performed ι σ ρ :=
  { op, before := s, result := (step op s).1, after := (step op s).2 }

/-- A run: each operation finds the state that the one before it left. -/
def trace : List ι → σ → List (Performed ι σ ρ)
  | [], _ => []
  | op :: ops, s => perform step op s :: trace ops (perform step op s).after

/-- The states of a run, the first one included. -/
def states (ops : List ι) (s : σ) : List σ := s :: (trace step ops s).map Performed.after

/-- The state before the first operation, and the states of the others from where it ended. -/
theorem states_cons (op : ι) (ops : List ι) (s : σ) :
    states step (op :: ops) s = s :: states step ops (perform step op s).after := rfl

variable {step} {I : σ → Prop} {P : Performed ι σ ρ → Prop}

/-- **What one operation keeps, a run keeps**: every state has the invariant, and every operation what it
guarantees of operations that start in such states. -/
theorem trace_invariant (hkeep : ∀ op s, I s → I (perform step op s).after)
    (hperform : ∀ op s, I s → P (perform step op s)) (ops : List ι) {s : σ} (hs : I s) :
    (∀ s' ∈ states step ops s, I s') ∧ ∀ t ∈ trace step ops s, P t := by
  induction ops generalizing s with
  | nil =>
    exact ⟨List.forall_mem_singleton.mpr hs, fun _ ht => absurd ht List.not_mem_nil⟩
  | cons op ops ih =>
    obtain ⟨hstates, htrace⟩ := ih (hkeep op s hs)
    constructor
    · rw [states_cons]
      exact List.forall_mem_cons.mpr ⟨hs, hstates⟩
    · exact List.forall_mem_cons.mpr ⟨hperform op s hs, htrace⟩

/-- **States that never decrease in one operation never decrease in a run.** -/
theorem states_pairwise [Preorder σ] (hkeep : ∀ op s, I s → I (perform step op s).after)
    (hle : ∀ op s, I s → s ≤ (perform step op s).after) (ops : List ι) {s : σ} (hs : I s) :
    (states step ops s).Pairwise (· ≤ ·) := by
  induction ops generalizing s with
  | nil => exact List.pairwise_singleton _ s
  | cons op ops ih =>
    have hrest := ih (hkeep op s hs)
    rw [states_cons]
    refine List.pairwise_cons.mpr ⟨fun s' hs' => ?_, hrest⟩
    have hfirst := hle op s hs
    -- the next state is the least of the rest
    rcases List.mem_cons.mp hs' with rfl | hs'
    · exact hfirst
    · exact le_trans hfirst ((List.pairwise_cons.mp hrest).1 s' hs')

end CvmMeasure.Sequence
