import Mathlib.Data.List.Infix

/-! # Prefix codes

A format whose records carry their own length is a *prefix code*: of two records read from the same
stream neither can be a proper part of the other. This file states that property for an encoder of
arbitrary values over arbitrary symbols, relative to a validity predicate, and derives what
concatenations of records inherit:

* **`PrefixFree.flatMap_comparable`**: two record lists read from one stream are comparable;
* **`PrefixFree.flatMap_eq_of_length_eq`**: of one length, they are equal;
* **`PrefixFree.flatMap_injective`**: the concatenation of a record list determines the list. -/

namespace CvmMeasure.Binary

universe u w

variable {α : Type u} {σ : Type w}

/-- **Prefix code.** Two valid values whose encodings both start the same stream are equal. -/
def PrefixFree (P : α → Prop) (enc : α → List σ) : Prop :=
  ∀ ⦃a b : α⦄ ⦃s : List σ⦄, P a → P b → enc a <+: s → enc b <+: s → a = b

/-- Two equal-length prefixes of one stream are equal, and so are the streams behind them. -/
theorem prefix_append_split {a a' b b' s : List σ} (h : a ++ b <+: s) (h' : a' ++ b' <+: s)
    (hlen : a.length = a'.length) :
    a = a' ∧ b <+: s.drop a.length ∧ b' <+: s.drop a.length := by
  have ha : a <+: s := (List.prefix_append a b).trans h
  have ha' : a' <+: s := (List.prefix_append a' b').trans h'
  have heq : a = a' := (List.prefix_of_prefix_length_le ha ha' hlen.le).eq_of_length hlen
  subst heq
  obtain ⟨t, rfl⟩ := ha
  rw [List.prefix_append_right_inj] at h h'
  rw [List.drop_left]
  exact ⟨rfl, h, h'⟩

/-- An injective encoder of one fixed length is a prefix code. -/
theorem prefixFree_of_length {P : α → Prop} {enc : α → List σ} {n : Nat}
    (hlen : ∀ a, P a → (enc a).length = n)
    (hinj : ∀ a b, P a → P b → enc a = enc b → a = b) : PrefixFree P enc := by
  intro a b s ha hb hpa hpb
  have hn : (enc a).length = (enc b).length := by rw [hlen a ha, hlen b hb]
  exact hinj a b ha hb ((List.prefix_of_prefix_length_le hpa hpb hn.le).eq_of_length hn)

namespace PrefixFree

variable {P : α → Prop} {enc : α → List σ}

/-- **Two record lists read from one stream are comparable.** -/
theorem flatMap_comparable (hpf : PrefixFree P enc) {l l' : List α} {s : List σ}
    (hl : ∀ a ∈ l, P a) (hl' : ∀ a ∈ l', P a) (h : l.flatMap enc <+: s)
    (h' : l'.flatMap enc <+: s) : l <+: l' ∨ l' <+: l := by
  induction l generalizing l' s with
  | nil => exact Or.inl List.nil_prefix
  | cons a l ih =>
    cases l' with
    | nil => exact Or.inr List.nil_prefix
    | cons b l' =>
      rw [List.flatMap_cons] at h h'
      have hab : a = b := hpf (hl a List.mem_cons_self) (hl' b List.mem_cons_self)
        ((List.prefix_append _ _).trans h) ((List.prefix_append _ _).trans h')
      subst hab
      obtain ⟨-, ht, ht'⟩ := prefix_append_split h h' rfl
      have hrest := ih (fun x hx => hl x (List.mem_cons_of_mem a hx))
        (fun x hx => hl' x (List.mem_cons_of_mem a hx)) ht ht'
      simpa only [List.prefix_cons_inj] using hrest

/-- Record lists of one length read from one stream are equal. -/
theorem flatMap_eq_of_length_eq (hpf : PrefixFree P enc) {l l' : List α} {s : List σ}
    (hl : ∀ a ∈ l, P a) (hl' : ∀ a ∈ l', P a) (h : l.flatMap enc <+: s)
    (h' : l'.flatMap enc <+: s) (hlen : l.length = l'.length) : l = l' := by
  rcases hpf.flatMap_comparable hl hl' h h' with hpre | hpre
  · exact hpre.eq_of_length hlen
  · exact (hpre.eq_of_length hlen.symm).symm

/-- **A concatenation of records determines the records**, provided none encodes to nothing. -/
theorem flatMap_injective (hpf : PrefixFree P enc) (hne : ∀ a, P a → enc a ≠ [])
    {l l' : List α} (hl : ∀ a ∈ l, P a) (hl' : ∀ a ∈ l', P a)
    (h : l.flatMap enc = l'.flatMap enc) : l = l' := by
  have key : ∀ {x y : List α}, (∀ a ∈ y, P a) → x.flatMap enc = y.flatMap enc → x <+: y → x = y := by
    rintro x y hy hxy ⟨t, rfl⟩
    rw [List.flatMap_append, List.self_eq_append_right] at hxy
    cases t with
    | nil => rw [List.append_nil]
    | cons c t =>
      rw [List.flatMap_cons, List.append_eq_nil_iff] at hxy
      exact absurd hxy.1 (hne c (hy c (by simp)))
  rcases hpf.flatMap_comparable hl hl' (List.prefix_refl _) (h ▸ List.prefix_refl _) with hpre | hpre
  · exact key hl' h hpre
  · exact (key hl h.symm hpre).symm

end PrefixFree

end CvmMeasure.Binary
