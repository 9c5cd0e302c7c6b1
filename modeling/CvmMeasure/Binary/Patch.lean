import CvmMeasure.Binary.Window

/-! # Buffers that agree outside some holes

What a reader with fixed offsets sees of a buffer does not change when bytes it never reads are
overwritten, or when bytes are appended.

* **`patch d o bs`**: `d` with the bytes at `o` overwritten by `bs`;
* **`AgreeOutside A B holes`**: `B` is at least as long as `A`, and every slice of `A` that meets no
  hole stands in `B` too. Patches and appended bytes leave it (`agreeOutside_patch`,
  `agreeOutside_of_isPrefix`), and it composes (`AgreeOutside.trans`). -/

namespace CvmMeasure.Binary

/-! ## Patches -/

/-- The buffer with the bytes at an offset overwritten. -/
def patch (d : Bytes) (o : Nat) (bs : Bytes) : Bytes := d.take o ++ (bs ++ d.drop (o + bs.length))

section

variable {d bs : Bytes} {o : Nat}

/-- A patch inside the bytes keeps their length, -/
theorem length_patch (h : o + bs.length ≤ d.length) : (patch d o bs).length = d.length := by
  simp only [patch, List.length_append, List.length_take, List.length_drop]
  omega

/-- what stands in front of it, -/
theorem take_patch (h : o + bs.length ≤ d.length) : (patch d o bs).take o = d.take o := by
  have hlen : (d.take o).length = o := by
    rw [List.length_take]
    omega
  rw [patch, List.take_append_of_le_length hlen.ge, List.take_of_length_le hlen.le]

/-- and what stands behind it. -/
theorem drop_patch (h : o + bs.length ≤ d.length) :
    (patch d o bs).drop (o + bs.length) = d.drop (o + bs.length) := by
  have hlen : (d.take o ++ bs).length = o + bs.length := by
    rw [List.length_append, List.length_take]
    omega
  rw [patch, ← List.append_assoc, ← hlen, List.drop_left, hlen]

/-- Outside the new bytes nothing changes. -/
theorem getElem?_patch (h : o + bs.length ≤ d.length) {i : Nat} (hi : i < o ∨ o + bs.length ≤ i) :
    (patch d o bs)[i]? = d[i]? := by
  rcases hi with hlt | hge
  · rw [← List.getElem?_take_of_lt hlt, take_patch h, List.getElem?_take_of_lt hlt]
  · have hdrop : ∀ e : Bytes, e[i]? = (e.drop (o + bs.length))[i - (o + bs.length)]? := by
      intro e
      rw [List.getElem?_drop, Nat.add_sub_cancel' hge]
    rw [hdrop, drop_patch h, ← hdrop]

/-- The new bytes stand at their offset. -/
theorem slice_patch (h : o + bs.length ≤ d.length) : slice (patch d o bs) o (o + bs.length) = bs := by
  have hlen : (d.take o).length = o := by
    rw [List.length_take]
    omega
  have hat := hasAt_middle (d.take o) bs (d.drop (o + bs.length))
  rw [hlen] at hat
  exact hasAt_iff_slice_eq.mp hat

end

/-! ## Agreement -/

/-- The range from `a` up to `b` meets none of the holes. -/
def Clear (holes : List (Nat × Nat)) (a b : Nat) : Prop := ∀ s ∈ holes, b ≤ s.1 ∨ s.2 ≤ a

/-- The two buffers agree on every slice of the first that meets none of the holes. -/
structure AgreeOutside (A B : Bytes) (holes : List (Nat × Nat)) : Prop where
  length_le : A.length ≤ B.length
  slice_eq : ∀ a b, b ≤ A.length → Clear holes a b → slice A a b = slice B a b

/-- The bytes of a prefix are those of the whole. -/
theorem agreeOutside_of_isPrefix {A B : Bytes} (h : A <+: B) : AgreeOutside A B [] := by
  refine ⟨h.length_le, fun a b hb _ => ?_⟩
  refine slice_congr (h := A.length) ?_ hb
  rw [List.take_length]
  exact List.prefix_iff_eq_take.mp h

/-- A patch changes nothing but its own bytes. -/
theorem agreeOutside_patch {d bs : Bytes} {o : Nat} (h : o + bs.length ≤ d.length) :
    AgreeOutside d (patch d o bs) [(o, o + bs.length)] := by
  refine ⟨(length_patch h).ge, fun a b _ hclear => ?_⟩
  rcases hclear _ (List.mem_singleton_self _) with hle | hge
  · exact slice_congr (take_patch h).symm hle
  · -- a slice behind the patch is read off what is left there
    obtain ⟨m, rfl⟩ : ∃ m, a = (o + bs.length) + m := Nat.exists_eq_add_of_le hge
    have hdrop : d.drop (o + bs.length + m) = (patch d o bs).drop (o + bs.length + m) := by
      rw [← List.drop_drop, ← drop_patch h, List.drop_drop]
    rw [slice, slice, hdrop]

/-- What agrees outside some holes, and then outside others, agrees outside all of them. -/
theorem AgreeOutside.trans {A B C : Bytes} {holes holes' : List (Nat × Nat)}
    (h : AgreeOutside A B holes) (h' : AgreeOutside B C holes') : AgreeOutside A C (holes ++ holes') := by
  refine ⟨h.length_le.trans h'.length_le, fun a b hb hclear => ?_⟩
  rw [h.slice_eq a b hb fun s hs => hclear s (List.mem_append_left _ hs)]
  exact h'.slice_eq a b (hb.trans h.length_le) fun s hs => hclear s (List.mem_append_right _ hs)

/-- Numbers that meet no hole are read alike. -/
theorem AgreeOutside.uintAt_eq {A B : Bytes} {holes : List (Nat × Nat)} (h : AgreeOutside A B holes)
    {off width : Nat} (hle : off + width ≤ A.length) (hclear : Clear holes off (off + width)) :
    uintAt A off width = uintAt B off width := by
  rw [uintAt, uintAt, h.slice_eq off (off + width) hle hclear]

end CvmMeasure.Binary
