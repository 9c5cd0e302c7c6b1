import Mathlib.Data.List.Basic
import Mathlib.Logic.Function.Basic

/-! # Interleavings

Several sequences, one for each key, written into one list in any order that keeps the order of each
sequence. Where every element shows the key of the sequence it belongs to, the list can be taken apart
again:

* **`Interleaves seqs l`**: `l` is an interleaving of the sequences;
* **`interleaves_iff`**: it is one exactly if the elements of each key, in list order, are the sequence
  of that key. -/

namespace CvmMeasure.Sequence

universe u v

variable {κ : Type u} {α : Type v} [DecidableEq κ]

/-- The list takes the elements of all sequences, each sequence from its front. -/
inductive Interleaves : (κ → List α) → List α → Prop
  | nil {seqs : κ → List α} (h : ∀ k, seqs k = []) : Interleaves seqs []
  | cons {seqs : κ → List α} {l : List α} (k : κ) (a : α)
      (h : Interleaves seqs l) : Interleaves (Function.update seqs k (a :: seqs k)) (a :: l)

variable {seqs : κ → List α} {l : List α} {key : α → κ}

/-- The elements of one key are their sequence. -/
theorem Interleaves.filter_eq (h : Interleaves seqs l) (hkey : ∀ k, ∀ a ∈ seqs k, key a = k) (k : κ) :
    l.filter (fun a => key a = k) = seqs k := by
  induction h with
  | nil hnil => rw [hnil k, List.filter_nil]
  | @cons seqs l k' a _ ih =>
    have hrest : ∀ k, ∀ x ∈ seqs k, key x = k := by
      intro j x hx
      apply hkey j x
      by_cases hj : j = k'
      · subst hj
        rw [Function.update_self]
        exact List.mem_cons_of_mem a hx
      · rwa [Function.update_of_ne hj]
    have ha : key a = k' := by
      apply hkey k' a
      rw [Function.update_self]
      exact List.mem_cons_self
    -- the head is taken from the sequence of its own key
    by_cases hk : k = k'
    · subst hk
      rw [List.filter_cons_of_pos (by simp [ha]), ih hrest, Function.update_self]
    · have hne : key a ≠ k := fun heq => hk (heq.symm.trans ha)
      rw [List.filter_cons_of_neg (by simp [hne]), ih hrest, Function.update_of_ne hk]

/-- Every list is an interleaving of the elements of each key. -/
theorem interleaves_filter (key : α → κ) (l : List α) :
    Interleaves (fun k => l.filter fun a => key a = k) l := by
  induction l with
  | nil => exact .nil fun _ => rfl
  | cons a l ih =>
    have hupdate : (fun k => (a :: l).filter fun x => key x = k)
        = Function.update (fun k => l.filter fun x => key x = k) (key a)
            (a :: l.filter fun x => key x = key a) := by
      funext k
      by_cases hk : k = key a
      · subst hk
        rw [Function.update_self, List.filter_cons_of_pos (by simp)]
      · have hne : ¬ key a = k := fun heq => hk heq.symm
        rw [Function.update_of_ne hk, List.filter_cons_of_neg (by simp [hne])]
    rw [hupdate]
    exact .cons (key a) a ih

/-- **A list interleaves sequences exactly if the elements of each key are the sequence of that key.** -/
theorem interleaves_iff (hkey : ∀ k, ∀ a ∈ seqs k, key a = k) :
    Interleaves seqs l ↔ ∀ k, l.filter (fun a => key a = k) = seqs k := by
  constructor
  · intro h
    exact h.filter_eq hkey
  · intro h
    have hseqs : seqs = fun k => l.filter fun a => key a = k := by
      funext k
      exact (h k).symm
    rw [hseqs]
    exact interleaves_filter key l

end CvmMeasure.Sequence
