import Mathlib.Data.List.Basic
import Mathlib.Data.List.TakeWhile

/-! # Words of a text

`str.split()`: the pieces between runs of whitespace, none of them empty.

* **`isSpace`**: the characters `str.split` takes for whitespace;
* **`words`**: the words of a text;
* **`words_append_space`**: a text is split at any of its whitespace, from which the rest follows;
* **`words_between`**, **`exists_word`**: the words are the pieces without whitespace between whitespace. -/

namespace CvmMeasure.Python

/-- `str.isspace` of one character. -/
def isSpace (c : Char) : Bool :=
  let n := c.toNat
  (0x09 ≤ n && n ≤ 0x0D) || (0x1C ≤ n && n ≤ 0x20) || n == 0x85 || n == 0xA0 || n == 0x1680 ||
    (0x2000 ≤ n && n ≤ 0x200A) || n == 0x2028 || n == 0x2029 || n == 0x202F || n == 0x205F ||
    n == 0x3000

/-- `s.split()`. -/
def words (cs : List Char) : List (List Char) := (cs.splitOnP isSpace).filter (· ≠ [])

example : words "  a\tbc \n".toList = ["a".toList, "bc".toList] := by decide

/-- The empty text has no words. -/
@[simp] theorem words_nil : words [] = [] := rfl

/-- **A text is split at its whitespace.** -/
theorem words_append_space {c : Char} (hc : isSpace c = true) (pre post : List Char) :
    words (pre ++ c :: post) = words pre ++ words post := by
  rw [words, List.splitOnP_append_cons pre post hc, List.filter_append]
  rfl

/-- Whitespace in front belongs to no word. -/
theorem words_cons_space {c : Char} (hc : isSpace c = true) (cs : List Char) :
    words (c :: cs) = words cs :=
  words_append_space hc [] cs

/-- A piece without whitespace is one word. -/
theorem words_of_no_space {w : List Char} (hne : w ≠ []) (hw : ∀ c ∈ w, isSpace c = false) :
    words w = [w] := by
  rw [words, List.splitOnP_eq_singleton hw]
  simp [hne]

/-- The text ends, or goes on with whitespace. -/
def EndsWord (cs : List Char) : Prop := ∀ c ∈ cs.head?, isSpace c = true

/-- The text is at its beginning, or behind whitespace. -/
def BeginsWord (cs : List Char) : Prop := ∀ c ∈ cs.getLast?, isSpace c = true

/-- What follows a word ends it. -/
theorem endsWord_dropWhile (cs : List Char) : EndsWord (cs.dropWhile fun c => !isSpace c) := by
  intro c hc
  have hnot := List.head?_dropWhile_not (fun c => !isSpace c) cs
  rw [Option.mem_def.mp hc] at hnot
  simpa using hnot

/-- A word in front of what ends it. -/
theorem words_word_append {w post : List Char} (hne : w ≠ []) (hw : ∀ c ∈ w, isSpace c = false)
    (hpost : EndsWord post) : words (w ++ post) = w :: words post := by
  cases post with
  | nil => rw [List.append_nil, words_of_no_space hne hw, words_nil]
  | cons c post =>
    have hc : isSpace c = true := hpost c rfl
    rw [words_append_space hc, words_of_no_space hne hw, words_cons_space hc]
    rfl

/-- **A word between two others.** -/
theorem words_between {pre w post : List Char} (hpre : BeginsWord pre) (hne : w ≠ [])
    (hw : ∀ c ∈ w, isSpace c = false) (hpost : EndsWord post) :
    words (pre ++ (w ++ post)) = words pre ++ w :: words post := by
  rcases List.eq_nil_or_concat' pre with rfl | ⟨pre, c, rfl⟩
  · exact words_word_append hne hw hpost
  · have hc : isSpace c = true := hpre c (by simp)
    rw [List.append_assoc, List.singleton_append, words_append_space hc,
      words_word_append hne hw hpost, words_append_space hc, words_nil, List.append_nil]

/-- The first word of a text that has one. -/
theorem exists_first_word {cs w : List Char} {rest : List (List Char)} (h : words cs = w :: rest) :
    ∃ pre post, cs = pre ++ (w ++ post) ∧ BeginsWord pre ∧ w ≠ [] ∧
      (∀ c ∈ w, isSpace c = false) ∧ EndsWord post ∧ words pre = [] ∧ words post = rest := by
  induction cs with
  | nil => cases h
  | cons c cs ih =>
    by_cases hc : isSpace c = true
    · -- leading whitespace goes to what stands before the word
      rw [words_cons_space hc] at h
      obtain ⟨pre, post, rfl, hpre, hne, hw, hpost, hnone, hrest⟩ := ih h
      refine ⟨c :: pre, post, rfl, ?_, hne, hw, hpost, ?_, hrest⟩
      · intro x hx
        cases pre with
        | nil =>
          obtain rfl : c = x := by simpa using hx
          exact hc
        | cons y pre => exact hpre x (by simpa using hx)
      · rw [words_cons_space hc, hnone]
    · -- the word is the run that begins here
      have hrun := List.takeWhile_append_dropWhile (p := fun x => !isSpace x) (l := c :: cs)
      have hne : (c :: cs).takeWhile (fun x => !isSpace x) ≠ [] := by
        rw [List.takeWhile_cons_of_pos (by simpa using hc)]
        exact List.cons_ne_nil _ _
      have hw : ∀ x ∈ (c :: cs).takeWhile (fun x => !isSpace x), isSpace x = false := by
        intro x hx
        simpa using List.mem_takeWhile_imp hx
      have hpost := endsWord_dropWhile (c :: cs)
      rw [← hrun, words_word_append hne hw hpost, List.cons.injEq] at h
      refine ⟨[], (c :: cs).dropWhile fun x => !isSpace x, ?_, ?_, ?_, ?_, hpost, rfl, h.2⟩
      · rw [List.nil_append, ← h.1, hrun]
      · exact fun x hx => absurd hx (by simp)
      · rw [← h.1]
        exact hne
      · rw [← h.1]
        exact hw

/-- **Where a word stands**: split the words of a text anywhere, and the text is split likewise. -/
theorem exists_word {cs w : List Char} {before after : List (List Char)}
    (h : words cs = before ++ w :: after) :
    ∃ pre post, cs = pre ++ (w ++ post) ∧ BeginsWord pre ∧ w ≠ [] ∧
      (∀ c ∈ w, isSpace c = false) ∧ EndsWord post ∧ words pre = before ∧ words post = after := by
  induction before generalizing cs with
  | nil => exact exists_first_word h
  | cons v before ih =>
    obtain ⟨pre, post, rfl, hpre, hv, hvspace, hpost, hnone, hrest⟩ := exists_first_word h
    obtain ⟨pre', post', rfl, hpre', hne, hw, hpost', hbefore, hafter⟩ := ih hrest
    -- the two words are apart: what ends the first stands in front of the second
    have hne' : pre' ≠ [] := by
      rintro rfl
      obtain ⟨x, w, rfl⟩ := List.exists_cons_of_ne_nil hne
      have hspace : isSpace x = true := hpost x rfl
      rw [hw x List.mem_cons_self] at hspace
      cases hspace
    have hends : EndsWord pre' := by
      obtain ⟨x, pre', rfl⟩ := List.exists_cons_of_ne_nil hne'
      exact fun y hy => hpost y hy
    refine ⟨pre ++ (v ++ pre'), post', ?_, ?_, hne, hw, hpost', ?_, hafter⟩
    · simp only [List.append_assoc]
    · intro x hx
      apply hpre' x
      rwa [← List.append_assoc, List.getLast?_append_of_ne_nil _ hne'] at hx
    · rw [words_between hpre hv hvspace hends, hnone, hbefore]
      rfl

end CvmMeasure.Python
