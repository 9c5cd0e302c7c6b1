import CvmMeasure.Python.Exceptions

/-! # Methods that refuse in place

A method that raises may already have changed its object. One that checks first and changes after leaves
the object as it was:

* **`RefusesInPlace`**: an exception leaves the state as it found it;
* **`LooksOnly`**, **`NeverRaises`**: the two kinds of parts of such a method;
* **`RefusesInPlace.look`**, **`RefusesInPlace.commit`**: behind a look, and before changes that cannot
  fail. -/

namespace CvmMeasure.Python

/-- An exception leaves the state as it was. -/
def RefusesInPlace {σ α : Type} (x : PyState σ α) : Prop := ∀ s e s', x s = .error e s' → s' = s

/-- A return leaves the state as it was. -/
def LooksOnly {σ α : Type} (x : PyState σ α) : Prop := ∀ s a s', x s = .ok a s' → s' = s

/-- The method always returns. -/
def NeverRaises {σ α : Type} (x : PyState σ α) : Prop := ∀ s e s', x s ≠ .error e s'

variable {σ α β : Type} {x : PyState σ α} {f : α → PyState σ β}

/-! ## Statements -/

/-- Returning looks at the state only. -/
theorem looksOnly_pure (a : α) : LooksOnly (pure a : PyState σ α) := by
  intro s b s' h
  exact (run_pure_ok.mp h).2.symm

/-- So does reading it, -/
theorem looksOnly_get : LooksOnly (get : PyState σ σ) := by
  intro s t s' h
  exact (run_get_ok.mp h).2.symm

/-- and raising. -/
theorem looksOnly_throw (e : PyError) : LooksOnly (throw e : PyState σ α) :=
  fun _ _ _ h => absurd h run_throw_ne_ok

/-- Returning never raises. -/
theorem neverRaises_pure (a : α) : NeverRaises (pure a : PyState σ α) :=
  fun _ _ _ => run_pure_ne_error

/-- Neither does reading the state, -/
theorem neverRaises_get : NeverRaises (get : PyState σ σ) := by
  intro s e s' h
  cases h

/-- or writing it. -/
theorem neverRaises_set (s : σ) : NeverRaises (set s : PyState σ PUnit) := by
  intro t e t' h
  cases h

/-- Raising leaves the state where it was. -/
theorem refusesInPlace_throw (e : PyError) : RefusesInPlace (throw e : PyState σ α) := by
  intro s e' s' h
  exact (run_throw_error.mp h).2.symm

/-! ## Sequences -/

/-- Two steps that only look make one. -/
theorem LooksOnly.bind (hx : LooksOnly x) (hf : ∀ a, LooksOnly (f a)) : LooksOnly (x >>= f) := by
  intro s b s' h
  obtain ⟨a, s₁, hok, h⟩ := run_bind_ok.mp h
  rw [hf a s₁ b s' h, hx s a s₁ hok]

/-- Two steps that never raise make one. -/
theorem NeverRaises.bind (hx : NeverRaises x) (hf : ∀ a, NeverRaises (f a)) :
    NeverRaises (x >>= f) := by
  intro s e s' h
  rcases run_bind_error.mp h with h | ⟨a, s₁, -, h⟩
  · exact hx s e s' h
  · exact hf a s₁ e s' h

/-- What never raises leaves no state behind an exception. -/
theorem NeverRaises.refusesInPlace (hx : NeverRaises x) : RefusesInPlace x :=
  fun s e s' h => absurd h (hx s e s')

/-- Behind a look the state is still the one found. -/
theorem RefusesInPlace.look (hx : RefusesInPlace x) (hlook : LooksOnly x)
    (hf : ∀ a, RefusesInPlace (f a)) : RefusesInPlace (x >>= f) := by
  intro s e s' h
  rcases run_bind_error.mp h with h | ⟨a, s₁, hok, h⟩
  · exact hx s e s' h
  · rw [hf a s₁ e s' h, hlook s a s₁ hok]

/-- A method that begins by reading its state. -/
theorem refusesInPlace_get_bind {f : σ → PyState σ α} (hf : ∀ s, RefusesInPlace (f s)) :
    RefusesInPlace (get >>= f) :=
  neverRaises_get.refusesInPlace.look looksOnly_get hf

/-- What cannot fail may change the state. -/
theorem RefusesInPlace.commit (hx : RefusesInPlace x) (hf : ∀ a, NeverRaises (f a)) :
    RefusesInPlace (x >>= f) := by
  intro s e s' h
  rcases run_bind_error.mp h with h | ⟨a, s₁, -, h⟩
  · exact hx s e s' h
  · exact absurd h (hf a s₁ e s')

end CvmMeasure.Python
