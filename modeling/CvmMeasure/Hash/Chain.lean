import CvmMeasure.Binary.LittleEndian

/-! # Hash chains

A measurement register is a hash chain: it starts at a fixed value and each extend replaces it by the
hash of itself followed by a digest. The hash is an arbitrary function here, over strings of arbitrary
symbols, and what a chain commits to is stated without any assumption of collision resistance: either
two chains agree, or the inputs they evaluated exhibit the failure.

* **`extend`**, **`replay`**: one extend and a whole chain;
* **`replayInputs`**: the inputs on which a replay evaluates the hash, in order;
* **`Collision`**: two of the given inputs are distinct and hash alike;
* **`replay_binding`**: chains with one end value agree, unless the evaluated inputs contain a
  collision or one of them hashes to the initial value. -/

namespace CvmMeasure.Hash

universe u

variable {σ : Type u} (H : List σ → List σ)

/-- One extend. -/
def extend (current digest : List σ) : List σ := H (current ++ digest)

/-- A chain of extends. -/
def replay (init : List σ) (digests : List (List σ)) : List σ := digests.foldl (extend H) init

/-- The inputs a replay hashes. -/
def replayInputs (init : List σ) : List (List σ) → List (List σ)
  | [] => []
  | d :: ds => (init ++ d) :: replayInputs (extend H init d) ds

/-- Two distinct inputs of the list have one hash. -/
def Collision (inputs : List (List σ)) : Prop :=
  ∃ a ∈ inputs, ∃ b ∈ inputs, a ≠ b ∧ H a = H b

/-- Without digests the register is left alone. -/
@[simp] theorem replay_nil (init : List σ) : replay H init [] = init := rfl

/-- The first digest is extended first. -/
@[simp] theorem replay_cons (init d : List σ) (ds : List (List σ)) :
    replay H init (d :: ds) = replay H (extend H init d) ds := rfl

/-- The last extend of a chain. -/
theorem replay_concat (init d : List σ) (ds : List (List σ)) :
    replay H init (ds ++ [d]) = H (replay H init ds ++ d) := by
  rw [replay, List.foldl_append]
  rfl

/-- The last hash input of a chain. -/
theorem replayInputs_concat (init d : List σ) (ds : List (List σ)) :
    replayInputs H init (ds ++ [d]) = replayInputs H init ds ++ [replay H init ds ++ d] := by
  induction ds generalizing init with
  | nil => rfl
  | cons x ds ih => rw [List.cons_append, replayInputs, ih, replayInputs, List.cons_append]; rfl

variable {H}

/-- Chains only ever hold the initial value or a hash. -/
theorem length_replay {w : Nat} (hH : ∀ x, (H x).length = w) {init : List σ} (hinit : init.length = w)
    (ds : List (List σ)) : (replay H init ds).length = w := by
  induction ds generalizing init with
  | nil => exact hinit
  | cons d ds ih => exact ih (hH _)

/-- A collision among some inputs is one among more. -/
theorem Collision.mono {xs ys : List (List σ)} (h : Collision H xs) (hsub : xs ⊆ ys) :
    Collision H ys := by
  obtain ⟨a, ha, b, hb, hne, heq⟩ := h
  exact ⟨a, hsub ha, b, hsub hb, hne, heq⟩

/-- Two evaluated inputs with one hash are equal, or a collision. -/
theorem eq_or_collision {xs : List (List σ)} {a b : List σ} (ha : a ∈ xs) (hb : b ∈ xs)
    (h : H a = H b) : a = b ∨ Collision H xs := by
  by_cases hab : a = b
  · exact Or.inl hab
  · exact Or.inr ⟨a, ha, b, hb, hab, h⟩

/-- Two lists of inputs with the same hashes are equal, or hold a collision. -/
theorem eq_or_collision_of_map_eq {xs ys : List (List σ)} (h : xs.map H = ys.map H) :
    xs = ys ∨ Collision H (xs ++ ys) := by
  induction xs generalizing ys with
  | nil =>
    rw [List.map_nil, eq_comm, List.map_eq_nil_iff] at h
    exact Or.inl h.symm
  | cons x xs ih =>
    cases ys with
    | nil => cases h
    | cons y ys =>
      rw [List.map_cons, List.map_cons, List.cons.injEq] at h
      -- the heads are equal or collide, and so on down the lists
      have hhead : x = y ∨ Collision H (x :: xs ++ y :: ys) :=
        eq_or_collision (by simp) (by simp) h.1
      rcases hhead with rfl | hcol
      · rcases ih h.2 with rfl | hcol
        · exact Or.inl rfl
        · refine Or.inr (hcol.mono ?_)
          intro z hz
          simp only [List.mem_append, List.mem_cons] at hz ⊢
          tauto
      · exact Or.inr hcol

/-- **Chains bind their digests.** Two chains that end in one value extended with the same digests in
the same order, unless the inputs they hashed contain a collision, or one of these inputs hashes to
the value both chains start from. -/
theorem replay_binding {w : Nat} (hH : ∀ x, (H x).length = w) {init : List σ}
    (hinit : init.length = w) (ds ds' : List (List σ)) (h : replay H init ds = replay H init ds') :
    ds = ds' ∨ Collision H (replayInputs H init ds ++ replayInputs H init ds') ∨
      ∃ x ∈ replayInputs H init ds ++ replayInputs H init ds', H x = init := by
  -- unwind both chains from their ends
  induction ds using List.reverseRecOn generalizing ds' with
  | nil =>
    rcases List.eq_nil_or_concat' ds' with rfl | ⟨ds', d', rfl⟩
    · exact Or.inl rfl
    · -- only the second chain is left: its last hash is the initial value
      right
      right
      rw [replay_nil, replay_concat] at h
      rw [replayInputs_concat]
      exact ⟨_, by simp, h.symm⟩
  | append_singleton ds d ih =>
    rcases List.eq_nil_or_concat' ds' with rfl | ⟨ds', d', rfl⟩
    · right
      right
      rw [replay_nil, replay_concat] at h
      rw [replayInputs_concat]
      exact ⟨_, by simp, h⟩
    · rw [replay_concat, replay_concat] at h
      rw [replayInputs_concat, replayInputs_concat]
      have hsub : replayInputs H init ds ++ replayInputs H init ds'
          ⊆ replayInputs H init ds ++ [replay H init ds ++ d]
            ++ (replayInputs H init ds' ++ [replay H init ds' ++ d']) := by
        intro x hx
        simp only [List.mem_append] at hx ⊢
        tauto
      have hlast : replay H init ds ++ d = replay H init ds' ++ d' ∨
          Collision H (replayInputs H init ds ++ [replay H init ds ++ d]
            ++ (replayInputs H init ds' ++ [replay H init ds' ++ d'])) :=
        eq_or_collision (by simp) (by simp) h
      rcases hlast with heq | hcol
      · -- the last inputs agree, so the last digests do, and so do the shorter chains
        have hlen : (replay H init ds).length = (replay H init ds').length := by
          rw [length_replay hH hinit, length_replay hH hinit]
        obtain ⟨hrest, rfl⟩ := List.append_inj heq hlen
        rcases ih ds' hrest with rfl | hcol | ⟨x, hx, hzero⟩
        · exact Or.inl rfl
        · exact Or.inr (Or.inl (hcol.mono hsub))
        · exact Or.inr (Or.inr ⟨x, hsub hx, hzero⟩)
      · exact Or.inr (Or.inl hcol)

/-! ## A concrete hash -/

/-- A hash of width `w` to evaluate chains with: the input as a number in base 257, modulo
`256 ^ w`. -/
def sampleHash (w : Nat) (x : Binary.Bytes) : Binary.Bytes :=
  Binary.leBytes w (x.foldl (fun n b => (257 * n + b.toNat + 1) % 256 ^ w) 0)

/-- The small hash has its width. -/
theorem length_sampleHash (w : Nat) (x : Binary.Bytes) : (sampleHash w x).length = w :=
  Binary.leBytes_length w _

end CvmMeasure.Hash
