import Mathlib.Data.List.Basic

/-! # Python dictionaries

A `dict` is an association list in insertion order. Assigning to a key that is there keeps its
position, as Python does; the tool relies on that order when it writes or compares dictionaries. -/

namespace CvmMeasure.Python

universe u v

variable {κ : Type u} {ν : Type v} [BEq κ]

/-- A dictionary, in insertion order. -/
abbrev Dict (κ : Type u) (ν : Type v) := List (κ × ν)

namespace Dict

/-- `d.get(key)`. -/
def get? (d : Dict κ ν) (key : κ) : Option ν := d.lookup key

/-- `d[key] = value`. -/
def set (d : Dict κ ν) (key : κ) (value : ν) : Dict κ ν :=
  match d with
  | [] => [(key, value)]
  | (k, v) :: d => if k == key then (k, value) :: d else (k, v) :: set d key value

/-- `d.keys()`. -/
def keys (d : Dict κ ν) : List κ := d.map Prod.fst

variable [LawfulBEq κ]

/-- An assigned key has its new value. -/
@[simp] theorem get?_set_self (d : Dict κ ν) (key : κ) (value : ν) :
    (d.set key value).get? key = some value := by
  induction d with
  | nil => simp [set, get?]
  | cons kv d ih =>
    obtain ⟨k, v⟩ := kv
    rw [set]
    by_cases hk : (k == key) = true
    · obtain rfl := eq_of_beq hk
      simp [get?]
    · rw [if_neg hk, get?, List.lookup_cons]
      have hk' : (key == k) = false := by
        rw [Bool.eq_false_iff]
        intro h
        exact hk (by simp [eq_of_beq h])
      rw [hk']
      exact ih

/-- Every other key keeps its value. -/
theorem get?_set_of_ne {d : Dict κ ν} {key other : κ} {value : ν} (h : other ≠ key) :
    (d.set key value).get? other = d.get? other := by
  have hother : (other == key) = false := by simpa using h
  induction d with
  | nil => simp [set, get?, h]
  | cons kv d ih =>
    obtain ⟨k, v⟩ := kv
    rw [set]
    by_cases hk : (k == key) = true
    · obtain rfl := eq_of_beq hk
      rw [if_pos hk, get?, get?, List.lookup_cons, List.lookup_cons, hother]
    · rw [if_neg hk]
      unfold get? at ih ⊢
      rw [List.lookup_cons, List.lookup_cons, ih]

/-- The keys are those with a value. -/
theorem mem_keys_iff {d : Dict κ ν} {key : κ} : key ∈ d.keys ↔ d.get? key ≠ none := by
  rw [get?, Ne, List.lookup_eq_none_iff, keys, List.mem_map]
  constructor
  · rintro ⟨kv, hkv, rfl⟩ hnone
    have hne := hnone kv hkv
    simp at hne
  · intro h
    by_contra hnone
    refine h fun kv hkv => ?_
    rw [bne_iff_ne]
    rintro rfl
    exact hnone ⟨kv, hkv, rfl⟩

/-- A key that is set joins the others. -/
theorem mem_keys_set {d : Dict κ ν} {key other : κ} {value : ν} :
    other ∈ (d.set key value).keys ↔ other = key ∨ other ∈ d.keys := by
  rw [mem_keys_iff, mem_keys_iff]
  by_cases h : other = key
  · subst h
    simp
  · rw [get?_set_of_ne h, or_iff_right h]

/-- Assigning keeps the keys distinct. -/
theorem nodup_keys_set {d : Dict κ ν} (h : d.keys.Nodup) (key : κ) (value : ν) :
    (d.set key value).keys.Nodup := by
  induction d with
  | nil => exact List.nodup_cons.mpr ⟨List.not_mem_nil, List.nodup_nil⟩
  | cons kv d ih =>
    obtain ⟨k, v⟩ := kv
    obtain ⟨hk, hd⟩ := List.nodup_cons.mp h
    rw [set]
    by_cases hkey : (k == key) = true
    · rw [if_pos hkey]
      exact h
    · rw [if_neg hkey]
      refine List.nodup_cons.mpr ⟨fun hmem => ?_, ih hd⟩
      rcases mem_keys_set.mp hmem with rfl | hmem
      · exact hkey (BEq.refl k)
      · exact hk hmem

/-- A dictionary over some keys, each under its own name. -/
theorem get?_map_of_injective {α : Type*} [DecidableEq α] {name : α → κ} (hname : Function.Injective name)
    (keys : List α) (value : α → ν) (key : α) :
    Dict.get? (keys.map fun k => (name k, value k)) (name key) = if key ∈ keys then some (value key) else none := by
  induction keys with
  | nil => rfl
  | cons k keys ih =>
    rw [get?] at ih ⊢
    rw [List.map_cons, List.lookup_cons]
    by_cases heq : key = k
    · subst heq
      rw [BEq.refl, if_pos List.mem_cons_self]
    · have hne : (name key == name k) = false := beq_eq_false_iff_ne.mpr (hname.ne heq)
      have hmem : key ∈ k :: keys ↔ key ∈ keys := List.mem_cons.trans (or_iff_right heq)
      simp only [hne, ih, hmem]

end Dict

end CvmMeasure.Python
