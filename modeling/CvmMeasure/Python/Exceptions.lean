import Mathlib.Init

/-! # Python exceptions

The tool signals every refusal by raising. A pure function becomes a function into `Py`, a method
of an object with mutable state one into `PyState`, whose state survives an exception, as Python's
does.

* **`PyError`**: the exception classes the modelled code can raise, with their texts;
* **`refuseIf c e`**: the source's `if c: raise e`;
* `bind_eq_ok` and `refuseIf_eq_ok` (and their `PyState` versions) invert a successful run one
  statement at a time, which is how every specification lemma below starts. -/

namespace CvmMeasure.Python

/-- The exceptions the modelled code can raise. `other` stands for those of code it calls, such as
`OSError`, `tarfile.ReadError` and `subprocess.CalledProcessError`. `outOfFuel` is no Python exception: it
marks a `while` loop cut off by the model's iteration bound, and no run of the tool reaches it. -/
inductive PyError where
  | valueError (message : String)
  | structError (message : String)
  | overflowError (message : String)
  | indexError (message : String)
  | keyError (key : String)
  | typeError (message : String)
  | assertionError
  | other (exception : String)
  | outOfFuel
  deriving DecidableEq, Repr

/-- The exception is a `ValueError`. -/
def PyError.IsValueError : PyError → Prop
  | .valueError _ => True
  | _ => False

instance (e : PyError) : Decidable e.IsValueError := by
  cases e <;> unfold PyError.IsValueError <;> infer_instance

/-- A `ValueError` has a message. -/
theorem PyError.IsValueError.exists_message {e : PyError} (h : e.IsValueError) :
    ∃ message, e = .valueError message := by
  cases e with
  | valueError message => exact ⟨message, rfl⟩
  | _ => exact h.elim

/-- A Python function without state of its own: a value or an exception. -/
abbrev Py := Except PyError

/-- A method of an object with mutable state `σ`; the state survives an exception. -/
abbrev PyState (σ : Type) := EStateM PyError σ

/-- `if c: raise e`. -/
def refuseIf {m : Type → Type} [Monad m] [MonadExceptOf PyError m] (c : Prop) [Decidable c]
    (e : PyError) : m Unit :=
  if c then throw e else pure ()

/-- Call a stateless function from a method. -/
def liftPy {σ α : Type} : Py α → PyState σ α
  | .ok a => pure a
  | .error e => throw e

/-- Run a method on a fresh object in state `s` and forget the object. -/
def runFrom {σ α : Type} (x : PyState σ α) (s : σ) : Py α :=
  match x s with
  | .ok a _ => .ok a
  | .error e _ => .error e

/-! ## Inverting a successful run -/

section Py

variable {α β : Type}

/-- A step that returned is followed by the next one. -/
@[simp] theorem ok_bind (a : α) (f : α → Py β) : ((Except.ok a : Py α) >>= f) = f a := rfl

/-- A step that raised ends the run. -/
@[simp] theorem error_bind (e : PyError) (f : α → Py β) :
    ((Except.error e : Py α) >>= f) = .error e := rfl

/-- Two steps return if the first one does and the second one does on what it returned. -/
@[simp] theorem bind_eq_ok {x : Py α} {f : α → Py β} {b : β} :
    (x >>= f) = .ok b ↔ ∃ a, x = .ok a ∧ f a = .ok b := by
  cases x <;> simp [bind, Except.bind]

/-- A function returns one value. -/
theorem ok_unique {x : Py α} {a b : α} (ha : x = .ok a) (hb : x = .ok b) : a = b :=
  Except.ok.inj (ha.symm.trans hb)

/-- A function that is seen to return has a value. -/
theorem exists_of_isOk {x : Py α} (h : x.isOk = true) : ∃ a, x = .ok a := by
  cases x with
  | ok a => exact ⟨a, rfl⟩
  | error e => cases h

/-- Two steps raise if one of them does. -/
theorem bind_eq_error {x : Py α} {f : α → Py β} {e : PyError} :
    (x >>= f) = .error e ↔ x = .error e ∨ ∃ a, x = .ok a ∧ f a = .error e := by
  cases x <;> simp [bind, Except.bind]

/-- `pure` returns its value. -/
@[simp] theorem pure_eq_ok {a b : α} : (pure a : Py α) = .ok b ↔ a = b := by
  simp [pure, Except.pure]

/-- `throw` does not return. -/
@[simp] theorem throw_ne_ok {e : PyError} {b : α} : (throw e : Py α) ≠ .ok b := by
  simp [throw, throwThe, MonadExceptOf.throw]

/-- A check passes if its condition is false. -/
@[simp] theorem refuseIf_eq_ok {c : Prop} [Decidable c] {e : PyError} {u : Unit} :
    (refuseIf c e : Py Unit) = .ok u ↔ ¬ c := by
  unfold refuseIf
  by_cases h : c <;> simp [h, throw, throwThe, MonadExceptOf.throw, pure, Except.pure]

/-- A refusal whose condition holds raises. -/
theorem refuseIf_of {c : Prop} [Decidable c] (h : c) (e : PyError) :
    (refuseIf c e : Py Unit) = .error e :=
  if_pos h

/-- A refusal whose condition fails does nothing. -/
theorem refuseIf_of_not {c : Prop} [Decidable c] (h : ¬ c) (e : PyError) :
    (refuseIf c e : Py Unit) = .ok () :=
  if_neg h

/-- Equivalent conditions refuse alike. -/
theorem refuseIf_congr {c c' : Prop} [Decidable c] [Decidable c'] (h : c ↔ c') (e : PyError) :
    (refuseIf c e : Py Unit) = refuseIf c' e := by
  unfold refuseIf
  by_cases hc : c
  · rw [if_pos hc, if_pos (h.mp hc)]
  · rw [if_neg hc, if_neg (mt h.mpr hc)]

/-- A check that fails raises its exception. -/
theorem refuseIf_eq_error {c : Prop} [Decidable c] {e e' : PyError} :
    (refuseIf c e : Py Unit) = .error e' ↔ c ∧ e = e' := by
  unfold refuseIf
  by_cases h : c <;> simp [h, throw, throwThe, MonadExceptOf.throw, pure, Except.pure]

end Py

section PyState

variable {σ α β : Type}

/-- Two steps return from a state if each does, the second from where the first ended. -/
@[simp] theorem run_bind_ok {x : PyState σ α} {f : α → PyState σ β} {s s' : σ} {b : β} :
    (x >>= f) s = .ok b s' ↔ ∃ a s₁, x s = .ok a s₁ ∧ f a s₁ = .ok b s' := by
  show EStateM.bind x f s = _ ↔ _
  unfold EStateM.bind
  cases x s <;> simp [and_assoc]

/-- Two steps raise from a state if one of them does. -/
theorem run_bind_error {x : PyState σ α} {f : α → PyState σ β} {s s' : σ} {e : PyError} :
    (x >>= f) s = .error e s' ↔
      x s = .error e s' ∨ ∃ a s₁, x s = .ok a s₁ ∧ f a s₁ = .error e s' := by
  show EStateM.bind x f s = _ ↔ _
  unfold EStateM.bind
  cases x s <;> simp [and_assoc]

/-- `pure` returns its value in the state it was run from. -/
@[simp] theorem run_pure_ok {s s' : σ} {a b : α} :
    (pure a : PyState σ α) s = .ok b s' ↔ a = b ∧ s = s' := by
  show EStateM.Result.ok a s = _ ↔ _
  simp

/-- `pure` does not raise. -/
@[simp] theorem run_pure_ne_error {s s' : σ} {a : α} {e : PyError} :
    (pure a : PyState σ α) s ≠ .error e s' := by
  show EStateM.Result.ok a s ≠ _
  simp

/-- `throw` does not return from any state. -/
@[simp] theorem run_throw_ne_ok {s s' : σ} {e : PyError} {b : α} :
    (throw e : PyState σ α) s ≠ .ok b s' := by
  show EStateM.Result.error e s ≠ _
  simp

/-- `throw` raises its exception in the state it was run from. -/
theorem run_throw_error {s s' : σ} {e e' : PyError} :
    (throw e : PyState σ α) s = .error e' s' ↔ e = e' ∧ s = s' := by
  show EStateM.Result.error e s = _ ↔ _
  simp

/-- `get` returns the state. -/
@[simp] theorem run_get_ok {s s' t : σ} :
    (get : PyState σ σ) s = .ok t s' ↔ s = t ∧ s = s' := by
  show EStateM.Result.ok s s = _ ↔ _
  simp

/-- `set` ends in its state. -/
@[simp] theorem run_set_ok {s s' t : σ} {u : PUnit} :
    (set t : PyState σ PUnit) s = .ok u s' ↔ t = s' := by
  show EStateM.Result.ok PUnit.unit t = _ ↔ _
  simp

/-- A check that passes leaves the state. -/
@[simp] theorem run_refuseIf_ok {c : Prop} [Decidable c] {e : PyError} {s s' : σ} {u : Unit} :
    (refuseIf c e : PyState σ Unit) s = .ok u s' ↔ ¬ c ∧ s = s' := by
  unfold refuseIf
  by_cases h : c <;> simp [h]

/-- A step without state leaves the state. -/
@[simp] theorem run_liftPy_ok {x : Py α} {s s' : σ} {a : α} :
    (liftPy x : PyState σ α) s = .ok a s' ↔ x = .ok a ∧ s = s' := by
  cases x <;> simp [liftPy]

/-- A run from a state returns what the step returns there, -/
theorem runFrom_eq_ok {x : PyState σ α} {s : σ} {a : α} :
    runFrom x s = .ok a ↔ ∃ s', x s = .ok a s' := by
  unfold runFrom
  cases x s <;> simp

/-- and raises what it raises there. -/
theorem runFrom_eq_error {x : PyState σ α} {s : σ} {e : PyError} :
    runFrom x s = .error e ↔ ∃ s', x s = .error e s' := by
  unfold runFrom
  cases x s <;> simp

end PyState

/-! ## Functions that raise nothing but `ValueError` -/

/-- Every exception of `x` from a state satisfying `I` is a `ValueError`. -/
def RaisesOnlyValueError {σ α : Type} (I : σ → Prop) (x : PyState σ α) : Prop :=
  ∀ s e s', I s → x s = .error e s' → e.IsValueError

section RaisesOnlyValueError

variable {σ α β : Type} {I J : σ → Prop}

/-- A sequence raises only `ValueError` if both parts do and the first establishes what the second
needs. -/
theorem RaisesOnlyValueError.bind {x : PyState σ α} {f : α → PyState σ β}
    (hx : RaisesOnlyValueError I x) (hpost : ∀ s a s', I s → x s = .ok a s' → J s')
    (hf : ∀ a, RaisesOnlyValueError J (f a)) : RaisesOnlyValueError I (x >>= f) := by
  intro s e s' hs h
  rcases run_bind_error.mp h with h | ⟨a, s₁, hok, h⟩
  · exact hx s e s' hs h
  · exact hf a s₁ e s' (hpost s a s₁ hs hok) h

/-- The same when the second part needs nothing of the state. -/
theorem RaisesOnlyValueError.andThen {x : PyState σ α} {f : α → PyState σ β}
    (hx : RaisesOnlyValueError I x) (hf : ∀ a, RaisesOnlyValueError (fun _ => True) (f a)) :
    RaisesOnlyValueError I (x >>= f) :=
  hx.bind (fun _ _ _ _ _ => trivial) hf

/-- Returning raises nothing. -/
theorem raisesOnlyValueError_pure (a : α) : RaisesOnlyValueError I (pure a : PyState σ α) :=
  fun _ _ _ _ h => absurd h run_pure_ne_error

/-- Raising a `ValueError` raises no other exception. -/
theorem raisesOnlyValueError_throw (message : String) :
    RaisesOnlyValueError I (throw (.valueError message) : PyState σ α) := by
  intro s e s' _ h
  obtain ⟨rfl, -⟩ := run_throw_error.mp h
  trivial

/-- Nor does a check that raises one. -/
theorem raisesOnlyValueError_refuseIf (c : Prop) [Decidable c] (message : String) :
    RaisesOnlyValueError I (refuseIf c (.valueError message) : PyState σ Unit) := by
  unfold refuseIf
  split
  · exact raisesOnlyValueError_throw _
  · exact raisesOnlyValueError_pure _

/-- Reading the state raises nothing. -/
theorem raisesOnlyValueError_get : RaisesOnlyValueError I (get : PyState σ σ) := by
  intro s e s' _ h
  cases h

end RaisesOnlyValueError

/-! The same for functions without state. -/

/-- The function raises `ValueError` only. -/
def OnlyValueError {α : Type} (x : Py α) : Prop := ∀ e, x = .error e → e.IsValueError

section OnlyValueError

variable {α β : Type}

/-- The second part is only run on what the first returns. -/
theorem OnlyValueError.bind {x : Py α} {f : α → Py β} (hx : OnlyValueError x)
    (hf : ∀ a, x = .ok a → OnlyValueError (f a)) : OnlyValueError (x >>= f) := by
  intro e h
  rcases bind_eq_error.mp h with h | ⟨a, hok, h⟩
  · exact hx e h
  · exact hf a hok e h

/-- Two steps that raise nothing but `ValueError` make one, -/
theorem OnlyValueError.andThen {x : Py α} {f : α → Py β} (hx : OnlyValueError x)
    (hf : ∀ a, OnlyValueError (f a)) : OnlyValueError (x >>= f) :=
  hx.bind fun a _ => hf a

/-- and so does a step and a function of its result. -/
theorem OnlyValueError.map {x : Py α} (hx : OnlyValueError x) (f : α → β) :
    OnlyValueError (f <$> x) := by
  intro e h
  cases hxv : x with
  | ok a => rw [hxv] at h; cases h
  | error e' =>
    rw [hxv] at h
    cases h
    exact hx _ hxv

/-- Returning raises nothing. -/
theorem onlyValueError_pure (a : α) : OnlyValueError (pure a : Py α) := by
  intro e h
  cases h

/-- Raising a `ValueError` raises no other exception. -/
theorem onlyValueError_throw (message : String) :
    OnlyValueError (throw (.valueError message) : Py α) := by
  intro e h
  cases h
  trivial

/-- Nor does a check that raises one. -/
theorem onlyValueError_refuseIf (c : Prop) [Decidable c] (message : String) :
    OnlyValueError (refuseIf c (.valueError message) : Py Unit) := by
  intro e h
  obtain ⟨-, rfl⟩ := refuseIf_eq_error.mp h
  trivial

/-- Such a function returns or raises `ValueError`. -/
theorem OnlyValueError.ok_or_valueError {x : Py α} (hx : OnlyValueError x) :
    (∃ a, x = .ok a) ∨ ∃ message, x = .error (.valueError message) := by
  cases h : x with
  | ok a => exact Or.inl ⟨a, rfl⟩
  | error e =>
    obtain ⟨message, rfl⟩ := (hx e h).exists_message
    exact Or.inr ⟨message, rfl⟩

end OnlyValueError

end CvmMeasure.Python
