import CvmMeasure.Binary.Window

/-! # Chunks and blocks

Content measured piece by piece is cut into chunks of one width, and a stream of records opened by
marker records falls into blocks. This file states what each of the two determines:

* **`range_mul`**: one flat range of `n * m` indices is `n` ranges of `m`;
* **`flatMap_chunks`**: the chunks of a byte string, one after the other, are the byte string;
* **`markedBlocks_injective`**: a concatenation of blocks that each open with a marker and have no
  marker behind it determines the blocks. -/

namespace CvmMeasure.Binary

universe u v

/-- A flat range of `n * m` indices is `n` ranges of `m` indices. -/
theorem range_mul (n m : Nat) :
    List.range (n * m) = (List.range n).flatMap fun k => (List.range m).map fun j => k * m + j := by
  induction n with
  | zero => simp
  | succ n ih =>
    rw [Nat.succ_mul, List.range_add, ih, List.range_succ, List.flatMap_append,
      List.flatMap_singleton]

/-- A slice of a slice is a slice. -/
theorem slice_slice (d : Bytes) {a b i j : Nat} (hj : a + j ≤ b) :
    slice (slice d a b) i j = slice d (a + i) (a + j) := by
  simp only [slice]
  rw [List.drop_take, List.drop_drop, List.take_take]
  congr 1
  omega

/-- The chunks of a byte string, one after the other, are its beginning. -/
theorem flatMap_chunks (c : Bytes) (w n : Nat) :
    ((List.range n).flatMap fun j => slice c (j * w) (j * w + w)) = c.take (n * w) := by
  induction n with
  | zero => simp
  | succ n ih =>
    rw [List.range_succ, List.flatMap_append, List.flatMap_singleton, ih, Nat.succ_mul, List.take_add,
      slice, Nat.add_sub_cancel_left]

section Blocks

variable {σ : Type u} {marker : σ → Prop}

/-- A list of non-markers in front of what starts with a marker is determined by the concatenation. -/
theorem append_inj_of_marker {xs ys rest rest' : List σ} (hxs : ∀ x ∈ xs, ¬ marker x)
    (hys : ∀ y ∈ ys, ¬ marker y) (hrest : ∀ x ∈ rest.head?, marker x)
    (hrest' : ∀ x ∈ rest'.head?, marker x) (h : xs ++ rest = ys ++ rest') :
    xs = ys ∧ rest = rest' := by
  induction xs generalizing ys with
  | nil =>
    cases ys with
    | nil => exact ⟨rfl, h⟩
    | cons y ys =>
      -- `rest` would start with the non-marker `y`
      rw [List.nil_append, List.cons_append] at h
      exact absurd (hrest y (by simp [h])) (hys y List.mem_cons_self)
  | cons x xs ih =>
    cases ys with
    | nil =>
      rw [List.nil_append, List.cons_append] at h
      exact absurd (hrest' x (by simp [← h])) (hxs x List.mem_cons_self)
    | cons y ys =>
      rw [List.cons_append, List.cons_append, List.cons.injEq] at h
      obtain ⟨rfl, htail⟩ := h
      obtain ⟨rfl, hrests⟩ := ih (fun z hz => hxs z (List.mem_cons_of_mem x hz))
        (fun z hz => hys z (List.mem_cons_of_mem x hz)) htail
      exact ⟨rfl, hrests⟩

variable {α : Type v} {P : α → Prop}

/-- A stream of blocks starts with a marker, if at all. -/
theorem head?_blocks {head : α → σ} {tail : α → List σ} {l : List α}
    (hhead : ∀ a, marker (head a)) :
    ∀ x ∈ (l.flatMap fun a => head a :: tail a).head?, marker x := by
  cases l with
  | nil => simp
  | cons a l =>
    intro x hx
    simp only [List.flatMap_cons, List.cons_append, List.head?_cons, Option.mem_some_iff] at hx
    exact hx ▸ hhead a

/-- **A stream of marked blocks determines the blocks**, and so whatever each block determines. -/
theorem markedBlocks_injective (marker : σ → Prop) (head : α → σ) (tail : α → List σ)
    (hhead : ∀ a, marker (head a)) (htail : ∀ a, ∀ x ∈ tail a, ¬ marker x)
    (hinj : ∀ a b, P a → P b → head a = head b → tail a = tail b → a = b) {l l' : List α}
    (hl : ∀ a ∈ l, P a) (hl' : ∀ a ∈ l', P a)
    (h : (l.flatMap fun a => head a :: tail a) = l'.flatMap fun a => head a :: tail a) : l = l' := by
  induction l generalizing l' with
  | nil =>
    cases l' with
    | nil => rfl
    | cons b l' => simp at h
  | cons a l ih =>
    cases l' with
    | nil => simp at h
    | cons b l' =>
      simp only [List.flatMap_cons, List.cons_append, List.cons.injEq] at h
      obtain ⟨hheads, hrest⟩ := h
      obtain ⟨htails, hstream⟩ := append_inj_of_marker (htail a) (htail b) (head?_blocks hhead)
        (head?_blocks hhead) hrest
      have hab : a = b := hinj a b (hl a List.mem_cons_self) (hl' b List.mem_cons_self) hheads htails
      rw [hab, ih (fun x hx => hl x (List.mem_cons_of_mem a hx))
        (fun x hx => hl' x (List.mem_cons_of_mem b hx)) hstream]

end Blocks

end CvmMeasure.Binary
