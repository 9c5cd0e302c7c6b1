import Mathlib.Data.List.Basic
import Mathlib.Data.List.Pairwise

/-! # Memory that is filled in pieces

A memory holds a value at every address. Segments are placed into it one after the other, a later one over an
earlier one.

* **`Segment`**, **`place`**, **`load`**: values at an address, and a memory with them in place;
* **`readRange`**: the values of a range of addresses;
* **`readRange_load`**: a segment that the others do not touch is read back, in whatever order they are placed. -/

namespace CvmMeasure.Binary

universe u

variable {α : Type u}

/-- Values at an address. -/
structure Segment (α : Type u) where
  addr : Nat
  data : List α

/-- Where a segment ends. -/
def Segment.stop (s : Segment α) : Nat := s.addr + s.data.length

/-- The segments share no address. -/
def Segment.Apart (s t : Segment α) : Prop := s.stop ≤ t.addr ∨ t.stop ≤ s.addr

instance (s t : Segment α) : Decidable (s.Apart t) := inferInstanceAs (Decidable (_ ∨ _))

/-- A memory with a segment in place. -/
def place (m : Nat → α) (s : Segment α) : Nat → α := fun a =>
  if s.addr ≤ a then (s.data[a - s.addr]?).getD (m a) else m a

/-- A memory with several segments in place, the later ones over the earlier ones. -/
def load (m : Nat → α) (segments : List (Segment α)) : Nat → α := segments.foldl place m

/-- The values from an address on. -/
def readRange (m : Nat → α) (addr n : Nat) : List α := (List.range n).map fun i => m (addr + i)

/-- Without segments memory is left alone. -/
@[simp] theorem load_nil (m : Nat → α) : load m [] = m := rfl

/-- The first segment is placed first. -/
@[simp] theorem load_cons (m : Nat → α) (s : Segment α) (ss : List (Segment α)) :
    load m (s :: ss) = load (place m s) ss := rfl

/-- Segments are loaded in order. -/
theorem load_append (m : Nat → α) (ss ts : List (Segment α)) : load m (ss ++ ts) = load (load m ss) ts :=
  List.foldl_append

/-- A range that is read has its length. -/
@[simp] theorem length_readRange (m : Nat → α) (addr n : Nat) : (readRange m addr n).length = n := by
  simp [readRange]

/-- What is read of a range depends on that range only. -/
theorem readRange_congr {m m' : Nat → α} {addr n : Nat} (h : ∀ i < n, m (addr + i) = m' (addr + i)) :
    readRange m addr n = readRange m' addr n := by
  apply List.map_congr_left
  intro i hi
  exact h i (List.mem_range.mp hi)

/-- Outside a segment nothing changes. -/
theorem place_outside (m : Nat → α) {s : Segment α} {a : Nat} (h : a < s.addr ∨ s.stop ≤ a) :
    place m s a = m a := by
  unfold place
  split
  · rename_i hle
    rw [List.getElem?_eq_none]
    · rfl
    · unfold Segment.stop at h
      omega
  · rfl

/-- A segment is read back. -/
theorem readRange_place (m : Nat → α) (s : Segment α) : readRange (place m s) s.addr s.data.length = s.data := by
  apply List.ext_getElem
  · rw [length_readRange]
  · intro i hi hi'
    simp only [readRange, List.getElem_map, List.getElem_range]
    rw [place, if_pos (Nat.le_add_right _ _), Nat.add_sub_cancel_left, List.getElem?_eq_getElem hi']
    rfl

/-- A segment does not change what is read apart from it. -/
theorem readRange_place_apart (m : Nat → α) {s t : Segment α} (h : s.Apart t) :
    readRange (place m t) s.addr s.data.length = readRange m s.addr s.data.length := by
  apply readRange_congr
  intro i hi
  apply place_outside
  unfold Segment.Apart Segment.stop at *
  omega

/-- **A segment that the others do not touch is read back**, in whatever order they are placed. -/
theorem readRange_load {s : Segment α} {ts : List (Segment α)} (h : ∀ t ∈ ts, t = s ∨ s.Apart t)
    (hs : s ∈ ts) (m : Nat → α) : readRange (load m ts) s.addr s.data.length = s.data := by
  -- once it is in place, it stays
  have hkeep : ∀ (ts : List (Segment α)) (m : Nat → α), (∀ t ∈ ts, t = s ∨ s.Apart t) →
      readRange m s.addr s.data.length = s.data →
      readRange (load m ts) s.addr s.data.length = s.data := by
    intro ts
    induction ts with
    | nil => exact fun _ _ hm => hm
    | cons t ts ih =>
      intro m h hm
      obtain ⟨ht, hts⟩ := List.forall_mem_cons.mp h
      apply ih (place m t) hts
      rcases ht with rfl | hapart
      · exact readRange_place m t
      · rw [readRange_place_apart m hapart, hm]
  obtain ⟨before, after, rfl⟩ := List.append_of_mem hs
  rw [load_append, load_cons]
  apply hkeep after _ fun t ht => h t (List.mem_append_right _ (List.mem_cons_of_mem s ht))
  exact readRange_place _ s

end CvmMeasure.Binary
