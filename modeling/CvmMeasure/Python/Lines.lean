import Mathlib.Data.List.Basic

/-! # Lines of bytes

`bytes.splitlines()`: a line ends at a line feed, at a carriage return, or at both in this order. The
loop goes over items that carry a byte each, so that it can be run on bytes that are marked with where
they come from.

* **`splitlines`**: the loop, one item at a time;
* `splitLoop_chunk`, `splitLoop_append`: text without a break extends the line, and behind a line feed
  the loop starts anew;
* **`mem_splitlines`**: every line begins the text or follows a break in it. -/

namespace CvmMeasure.Python

def lineFeed : UInt8 := 0x0A
def carriageReturn : UInt8 := 0x0D

/-- The two line breaks are different bytes. -/
theorem carriageReturn_ne_lineFeed : carriageReturn ≠ lineFeed := by decide

variable {α β : Type}

/-- The byte ends a line. -/
def IsBreak (b : UInt8) : Prop := b = lineFeed ∨ b = carriageReturn

/-- The loop of `splitlines`, with the line read so far. Behind a carriage return a line feed belongs to
the break. -/
def splitLoop (byte : α → UInt8) : Bool → List α → List α → List (List α)
  | _, cur, [] => if cur.isEmpty then [] else [cur]
  | afterReturn, cur, t :: ts =>
    if byte t = lineFeed then
      if afterReturn then splitLoop byte false [] ts else cur :: splitLoop byte false [] ts
    else if byte t = carriageReturn then cur :: splitLoop byte true [] ts
    else splitLoop byte false (cur ++ [t]) ts

/-- `splitlines`. -/
def splitlines (byte : α → UInt8) (xs : List α) : List (List α) := splitLoop byte false [] xs

/-- The lines of marked bytes are the lines of the bytes, marked. -/
theorem map_splitLoop (f : α → β) (byte : β → UInt8) (afterReturn : Bool) (cur xs : List α) :
    (splitLoop (fun a => byte (f a)) afterReturn cur xs).map (List.map f)
      = splitLoop byte afterReturn (cur.map f) (xs.map f) := by
  induction xs generalizing afterReturn cur with
  | nil =>
    simp only [splitLoop, List.map_nil, List.isEmpty_map]
    split <;> rfl
  | cons t ts ih =>
    simp only [splitLoop, List.map_cons]
    by_cases hfeed : byte (f t) = lineFeed
    · cases afterReturn <;> simp [hfeed, ih]
    · by_cases hreturn : byte (f t) = carriageReturn
      · simp [hreturn, carriageReturn_ne_lineFeed, ih]
      · simp [hfeed, hreturn, ih]

/-- Lines are split alike behind a map of their items. -/
theorem map_splitlines (f : α → β) (byte : β → UInt8) (xs : List α) :
    (splitlines (fun a => byte (f a)) xs).map (List.map f) = splitlines byte (xs.map f) :=
  map_splitLoop f byte false [] xs

section Pieces

variable {byte : α → UInt8}

/-- Text without a break extends the line. -/
theorem splitLoop_chunk {p : List α} (hp : ∀ t ∈ p, ¬ IsBreak (byte t)) (cur r : List α) :
    splitLoop byte false cur (p ++ r) = splitLoop byte false (cur ++ p) r := by
  induction p generalizing cur with
  | nil => rw [List.nil_append, List.append_nil]
  | cons t p ih =>
    obtain ⟨ht, hp⟩ := List.forall_mem_cons.mp hp
    have hfeed : byte t ≠ lineFeed := fun h => ht (Or.inl h)
    have hreturn : byte t ≠ carriageReturn := fun h => ht (Or.inr h)
    rw [List.cons_append, splitLoop, if_neg hfeed, if_neg hreturn, ih hp, List.append_assoc]
    rfl

/-- Behind a line feed the loop starts anew. -/
theorem splitLoop_append {t : α} (ht : byte t = lineFeed) (afterReturn : Bool) (cur x r : List α) :
    splitLoop byte afterReturn cur (x ++ t :: r)
      = splitLoop byte afterReturn cur (x ++ [t]) ++ splitlines byte r := by
  induction x generalizing afterReturn cur with
  | nil =>
    simp only [List.nil_append, splitLoop, ht, if_true, splitlines, List.isEmpty_nil]
    cases afterReturn <;> rfl
  | cons a x ih =>
    simp only [List.cons_append, splitLoop, ih]
    by_cases hfeed : byte a = lineFeed
    · cases afterReturn <;> simp [hfeed]
    · by_cases hreturn : byte a = carriageReturn
      · simp [hreturn, carriageReturn_ne_lineFeed]
      · simp [hfeed, hreturn]

/-- `s` is what follows a line break in `xs`. -/
def FollowsBreak (byte : α → UInt8) (xs s : List α) : Prop :=
  ∃ pre b, xs = pre ++ b :: s ∧ IsBreak (byte b) ∧
    ¬ (byte b = carriageReturn ∧ s.head?.map byte = some lineFeed)

/-- What follows a line break does so with an item in front. -/
theorem FollowsBreak.cons {t : α} {xs s : List α} (h : FollowsBreak byte xs s) :
    FollowsBreak byte (t :: xs) s := by
  obtain ⟨pre, b, rfl, hb⟩ := h
  exact ⟨t :: pre, b, rfl, hb⟩

/-- A line of the loop extends the line read so far, or begins behind a break. -/
theorem mem_splitLoop {afterReturn : Bool} {cur xs line : List α}
    (h : line ∈ splitLoop byte afterReturn cur xs) :
    (∃ p, p <+: xs ∧ line = cur ++ p ∧
      ¬ (afterReturn = true ∧ xs.head?.map byte = some lineFeed)) ∨
    ∃ s, FollowsBreak byte xs s ∧ line <+: s := by
  induction xs generalizing afterReturn cur with
  | nil =>
    simp only [splitLoop] at h
    split at h
    · cases h
    · obtain rfl := List.mem_singleton.mp h
      exact Or.inl ⟨[], List.nil_prefix, (List.append_nil _).symm, by simp⟩
  | cons t ts ih =>
    -- the lines behind a break that leaves no line feed to skip
    have hbehind : ∀ {afterReturn' : Bool}, IsBreak (byte t) →
        (byte t = carriageReturn → afterReturn' = true) →
        line ∈ splitLoop byte afterReturn' [] ts → ∃ s, FollowsBreak byte (t :: ts) s ∧ line <+: s := by
      intro afterReturn' hbreak hflag hmem
      rcases ih hmem with ⟨p, hp, rfl, hskip⟩ | ⟨s, hs, hline⟩
      · exact ⟨ts, ⟨[], t, rfl, hbreak, fun hr => hskip ⟨hflag hr.1, hr.2⟩⟩, hp⟩
      · exact ⟨s, hs.cons, hline⟩
    simp only [splitLoop] at h
    by_cases hfeed : byte t = lineFeed
    · rw [if_pos hfeed] at h
      have hne : byte t = carriageReturn → false = true := by
        intro hreturn
        exact absurd (hreturn.symm.trans hfeed) carriageReturn_ne_lineFeed
      cases afterReturn with
      | true => exact Or.inr (hbehind (Or.inl hfeed) hne h)
      | false =>
        rcases List.mem_cons.mp h with rfl | h
        · exact Or.inl ⟨[], List.nil_prefix, (List.append_nil _).symm, fun hr => by cases hr.1⟩
        · exact Or.inr (hbehind (Or.inl hfeed) hne h)
    · rw [if_neg hfeed] at h
      have hhead : ¬ (afterReturn = true ∧ ((t :: ts).head?.map byte = some lineFeed)) := by
        rintro ⟨-, hr⟩
        exact hfeed (Option.some.inj hr)
      by_cases hreturn : byte t = carriageReturn
      · rw [if_pos hreturn] at h
        rcases List.mem_cons.mp h with rfl | h
        · exact Or.inl ⟨[], List.nil_prefix, (List.append_nil _).symm, hhead⟩
        · exact Or.inr (hbehind (Or.inr hreturn) (fun _ => rfl) h)
      · rw [if_neg hreturn] at h
        rcases ih h with ⟨p, hp, rfl, -⟩ | ⟨s, hs, hline⟩
        · refine Or.inl ⟨t :: p, List.cons_prefix_cons.mpr ⟨rfl, hp⟩, ?_, hhead⟩
          rw [List.append_assoc]
          rfl
        · exact Or.inr ⟨s, hs.cons, hline⟩

/-- **Every line begins the text or follows a break in it.** -/
theorem mem_splitlines {xs line : List α} (h : line ∈ splitlines byte xs) :
    line <+: xs ∨ ∃ s, FollowsBreak byte xs s ∧ line <+: s := by
  rcases mem_splitLoop h with ⟨p, hp, rfl, -⟩ | hbehind
  · exact Or.inl hp
  · exact Or.inr hbehind

/-- What follows a break of two texts follows one in the first, up to the second, or one in the second. -/
theorem FollowsBreak.of_append {x y s : List α} (h : FollowsBreak byte (x ++ y) s) :
    (∃ s', FollowsBreak byte x s' ∧ s = s' ++ y) ∨ FollowsBreak byte y s := by
  obtain ⟨pre, b, heq, hbreak, hskip⟩ := h
  rcases List.append_eq_append_iff.mp heq with ⟨z, rfl, rfl⟩ | ⟨z, rfl, hz⟩
  · exact Or.inr ⟨z, b, rfl, hbreak, hskip⟩
  · cases z with
    | nil =>
      refine Or.inr ⟨[], b, ?_, hbreak, hskip⟩
      exact hz.symm
    | cons c z =>
      obtain ⟨rfl, rfl⟩ := List.cons.inj hz
      refine Or.inl ⟨z, ⟨pre, b, rfl, hbreak, fun hr => hskip ⟨hr.1, ?_⟩⟩, rfl⟩
      cases z with
      | nil => cases hr.2
      | cons d z => exact hr.2

/-- Nothing follows a break in a text without one. -/
theorem not_followsBreak {x s : List α} (hx : ∀ t ∈ x, ¬ IsBreak (byte t)) :
    ¬ FollowsBreak byte x s := by
  rintro ⟨pre, b, rfl, hbreak, -⟩
  exact hx b (List.mem_append_right pre List.mem_cons_self) hbreak

end Pieces

end CvmMeasure.Python
