import CvmMeasure.Toml.Syntax

/-! # Where the lines of a value begin

Only arrays and multi-line strings hold newlines. A line that starts inside a value therefore starts
inside a multi-line string, or begins, behind blanks, with what may stand between the values of an array.

* **`OpensMultiline`**, **`OpensInner`**: the two ways such a line begins;
* `NoBreak`: keys, comments and single-line strings hold no newline;
* **`Value.innerLines`**: every line that starts inside a value begins in one of the two ways. -/

namespace CvmMeasure.Toml

open Binary Python

/-! ## Text without a newline -/

/-- No byte ends a line. -/
def NoBreak (bs : Bytes) : Prop := ∀ b ∈ bs, ¬ IsBreak b

/-- Bytes without line breaks, one behind the other. -/
theorem NoBreak.append {bs bs' : Bytes} (h : NoBreak bs) (h' : NoBreak bs') : NoBreak (bs ++ bs') :=
  List.forall_mem_append.mpr ⟨h, h'⟩

/-- One byte in front of such bytes. -/
theorem NoBreak.cons {b : UInt8} {bs : Bytes} (hb : ¬ IsBreak b) (h : NoBreak bs) :
    NoBreak (b :: bs) :=
  List.forall_mem_cons.mpr ⟨hb, h⟩

/-- No bytes have no line break. -/
theorem noBreak_nil : NoBreak [] := fun _ hb => absurd hb List.not_mem_nil

/-- A single byte that is no line break. -/
theorem noBreak_byte (b : UInt8) (hb : ¬ IsBreak b) : NoBreak [b] := noBreak_nil.cons hb

/-- Pieces without line breaks, one behind the other. -/
theorem noBreak_flatMap {α : Type} {f : α → Bytes} {xs : List α} (h : ∀ x ∈ xs, NoBreak (f x)) :
    NoBreak (xs.flatMap f) := by
  intro b hb
  obtain ⟨x, hx, hb⟩ := List.mem_flatMap.mp hb
  exact h x hx b hb

instance : DecidablePred IsBreak := fun b => by unfold IsBreak; infer_instance

/-- A kind of bytes that holds neither of the two ends no line. -/
theorem not_isBreak {P : UInt8 → Prop} (hfeed : ¬ P lineFeed) (hreturn : ¬ P carriageReturn)
    {b : UInt8} (h : P b) : ¬ IsBreak b := by
  rintro (rfl | rfl)
  · exact hfeed h
  · exact hreturn h

/-- A run of bytes that cannot be line breaks has none. -/
theorem noBreak_run {P : UInt8 → Prop} (hfeed : ¬ P lineFeed) (hreturn : ¬ P carriageReturn)
    (run : Run P) : NoBreak run.bytes := by
  intro b hb
  obtain ⟨x, -, rfl⟩ := List.mem_map.mp hb
  exact not_isBreak hfeed hreturn x.property

/-- Blanks are on one line. -/
theorem noBreak_blanks (blanks : Blanks) : NoBreak blanks.bytes :=
  noBreak_run (by decide) (by decide) blanks

/-- A comment ends before the line does. -/
theorem noBreak_comment (comment : Comment) : NoBreak comment.bytes := by
  cases comment with
  | none => exact noBreak_nil
  | some text => exact NoBreak.cons (by decide) (noBreak_run (by decide) (by decide) text)

/-- An escape is on one line, -/
theorem noBreak_escape (e : Escape) : NoBreak e.bytes := by
  cases e with
  | letter b =>
    have hletter : ¬ IsBreak b.val :=
      not_isBreak (by decide) (by decide) b.property
    exact NoBreak.cons (by decide) (NoBreak.cons hletter noBreak_nil)
  | unicode digits h =>
    refine NoBreak.cons (by decide) (NoBreak.cons ?_ ?_)
    · split <;> decide
    · exact noBreak_run (by decide) (by decide) digits

/-- and so is every character of a basic string, -/
theorem noBreak_basicChar (c : BasicChar) : NoBreak c.bytes := by
  cases c with
  | plain b =>
    exact noBreak_byte _ (not_isBreak (by decide) (by decide) b.property)
  | escape e => exact noBreak_escape e

/-- the string itself, -/
theorem noBreak_basic (chars : List BasicChar) : NoBreak (Str.basic chars).bytes :=
  ((noBreak_byte 0x22 (by decide)).append
    (noBreak_flatMap fun c _ => noBreak_basicChar c)).append
    (noBreak_byte 0x22 (by decide))

/-- and a literal string. -/
theorem noBreak_literal (chars : Run IsLiteralChar) : NoBreak (Str.literal chars).bytes :=
  ((noBreak_byte 0x27 (by decide)).append
    (noBreak_run (by decide) (by decide) chars)).append
    (noBreak_byte 0x27 (by decide))

/-- A key is on one line, -/
theorem noBreak_simpleKey (key : SimpleKey) : NoBreak key.bytes := by
  cases key with
  | bare first rest =>
    exact NoBreak.cons (not_isBreak (by decide) (by decide) first.property)
      (noBreak_run (by decide) (by decide) rest)
  | basic chars => exact noBreak_basic chars
  | literal chars => exact noBreak_literal chars

/-- and so are keys with dots between them. -/
theorem noBreak_key (key : Key) : NoBreak key.bytes := by
  refine (noBreak_simpleKey key.first).append (noBreak_flatMap fun part _ => ?_)
  exact (((noBreak_blanks part.1).append (noBreak_byte 0x2E (by decide))).append
    (noBreak_blanks part.2.1)).append (noBreak_simpleKey part.2.2)

/-! ## Lines inside a value -/

/-- What a line inside an array begins with behind its blanks: a value, a comma, the closing bracket, a
comment, or the end of the line. -/
def IsInnerStart (b : UInt8) : Prop :=
  IsScalarStart b ∨ b = 0x22 ∨ b = 0x27 ∨ b = 0x5B ∨ b = 0x7B ∨ b = 0x2C ∨ b = 0x5D ∨ b = 0x23
    ∨ IsBreak b

instance : DecidablePred IsInnerStart := fun b => by unfold IsInnerStart; infer_instance

/-- The text begins like a line inside an array. -/
def OpensInner (s : List Placed) : Prop :=
  ∃ w t r, s = w ++ t :: r ∧ (∀ x ∈ w, IsBlank x.2) ∧ IsInnerStart t.2

/-- The text begins inside a multi-line string. -/
def OpensMultiline (s : List Placed) : Prop := ∃ t r, s = t :: r ∧ t.1 = .multiline

/-- Every line that starts in the text begins in one of the two ways. -/
def InnerLines (x : List Placed) : Prop :=
  ∀ s, FollowsBreak Prod.snd x s → OpensMultiline s ∨ OpensInner s

/-- More text behind does not matter to how a text begins, inside a multi-line string, -/
theorem OpensMultiline.append {s : List Placed} (h : OpensMultiline s) (y : List Placed) :
    OpensMultiline (s ++ y) := by
  obtain ⟨t, r, rfl, ht⟩ := h
  exact ⟨t, r ++ y, rfl, ht⟩

/-- or inside an array. -/
theorem OpensInner.append {s : List Placed} (h : OpensInner s) (y : List Placed) :
    OpensInner (s ++ y) := by
  obtain ⟨w, t, r, rfl, hw, ht⟩ := h
  exact ⟨w, t, r ++ y, by rw [List.append_assoc, List.cons_append], hw, ht⟩

/-- Two texts whose lines begin so, one behind the other. -/
theorem InnerLines.append {x y : List Placed} (hx : InnerLines x) (hy : InnerLines y) :
    InnerLines (x ++ y) := by
  intro s hs
  rcases hs.of_append with ⟨s', hs', rfl⟩ | hs
  · exact (hx s' hs').imp (fun h => h.append y) fun h => h.append y
  · exact hy s hs

/-- No line starts in text without a newline. -/
theorem NoBreak.not_followsBreak {bs : Bytes} (h : NoBreak bs) (o : Origin) {s : List Placed} :
    ¬ FollowsBreak Prod.snd (mark o bs) s := by
  refine Python.not_followsBreak fun t ht => ?_
  obtain ⟨b, hb, rfl⟩ := List.mem_map.mp ht
  exact h b hb

/-- In text on one line no line starts. -/
theorem innerLines_mark (o : Origin) {bs : Bytes} (h : NoBreak bs) : InnerLines (mark o bs) :=
  fun _ hs => absurd hs (h.not_followsBreak o)

/-- Behind a newline the rest of the text begins, or a line inside it. -/
theorem followsBreak_newline {o : Origin} {nl : Newline} {y s : List Placed}
    (h : FollowsBreak Prod.snd (mark o nl.bytes ++ y) s) : s = y ∨ FollowsBreak Prod.snd y s := by
  obtain ⟨pre, b, heq, hbreak, hskip⟩ := h
  cases nl with
  | lf =>
    cases pre with
    | nil => exact Or.inl (List.cons.inj heq).2.symm
    | cons p pre => exact Or.inr ⟨pre, b, (List.cons.inj heq).2, hbreak, hskip⟩
  | crlf =>
    rcases pre with - | ⟨p, - | ⟨p', pre⟩⟩
    · -- the line feed belongs to the carriage return
      obtain ⟨rfl, rfl⟩ := List.cons.inj heq
      exact absurd ⟨rfl, rfl⟩ hskip
    · exact Or.inl (List.cons.inj (List.cons.inj heq).2).2.symm
    · exact Or.inr ⟨pre, b, (List.cons.inj (List.cons.inj heq).2).2, hbreak, hskip⟩

/-- What follows a gap makes the gap's lines begin like lines of an array. -/
theorem opensInner_gap (gap : Gap) {t : Placed} (r : List Placed) (ht : IsInnerStart t.2) :
    OpensInner (renderGap gap ++ t :: r) := by
  induction gap with
  | nil => exact ⟨[], t, r, rfl, fun _ hx => absurd hx List.not_mem_nil, ht⟩
  | cons item gap ih =>
    rw [renderGap, List.flatMap_cons, mark_append, List.append_assoc]
    cases item with
    | blank b =>
      obtain ⟨w, t', r', heq, hw, ht'⟩ := ih
      refine ⟨(.array, b.val) :: w, t', r', congrArg ((Origin.array, b.val) :: ·) heq, ?_, ht'⟩
      exact List.forall_mem_cons.mpr ⟨b.property, hw⟩
    | newline comment nl =>
      -- the line ends here, with or without a comment
      have hnil : ∀ x ∈ ([] : List Placed), IsBlank x.2 := fun _ hx => absurd hx List.not_mem_nil
      cases comment with
      | some text =>
        exact ⟨[], (.array, 0x23), _, rfl, hnil, (by decide : IsInnerStart 0x23)⟩
      | none =>
        cases nl with
        | lf => exact ⟨[], (.array, 0x0A), _, rfl, hnil, (by decide : IsInnerStart 0x0A)⟩
        | crlf => exact ⟨[], (.array, 0x0D), _, rfl, hnil, (by decide : IsInnerStart 0x0D)⟩

/-- A gap in an array, and what stands behind it. -/
theorem innerLines_gap (gap : Gap) {t : Placed} {r : List Placed} (ht : IsInnerStart t.2)
    (hr : InnerLines (t :: r)) : InnerLines (renderGap gap ++ t :: r) := by
  induction gap with
  | nil => exact hr
  | cons item gap ih =>
    intro s hs
    rw [renderGap, List.flatMap_cons, mark_append, List.append_assoc] at hs
    cases item with
    | blank b =>
      have hblank : InnerLines (mark .array [b.val]) :=
        innerLines_mark _ (noBreak_byte _ (not_isBreak (by decide) (by decide) b.property))
      exact hblank.append ih s hs
    | newline comment nl =>
      rw [GapItem.bytes, mark_append, List.append_assoc] at hs
      rcases hs.of_append with ⟨s', hs', -⟩ | hs
      · exact absurd hs' ((noBreak_comment comment).not_followsBreak _)
      · rcases followsBreak_newline hs with rfl | hs
        · exact Or.inr (opensInner_gap gap r ht)
        · exact ih s hs

/-- A multi-line string is marked as one up to its closing quotes. -/
theorem innerLines_multiline (bs : Bytes) {q : UInt8} (hq : ¬ IsBreak q) :
    InnerLines (mark .multiline (bs ++ [q, q, q])) := by
  rintro s ⟨pre, b, heq, hbreak, -⟩
  have hmem : ∀ t ∈ pre ++ b :: s, t.1 = Origin.multiline := by
    rw [← heq]
    intro t ht
    obtain ⟨c, -, rfl⟩ := List.mem_map.mp ht
    rfl
  cases s with
  | nil =>
    -- the last byte is a quote
    have hlast : (pre ++ [b]).getLast? = some (.multiline, q) := by
      rw [← heq]
      simp [mark]
    rw [List.getLast?_concat] at hlast
    cases Option.some.inj hlast
    exact absurd hbreak hq
  | cons t r =>
    exact Or.inl ⟨t, r, rfl, hmem t (List.mem_append_right _ (List.mem_cons_of_mem _
      List.mem_cons_self))⟩

/-- The inner lines of a string, -/
theorem Str.innerLines (o : Origin) (s : Str) : InnerLines (s.render o) := by
  cases s with
  | basic chars => exact innerLines_mark o (noBreak_basic chars)
  | literal chars => exact innerLines_mark o (noBreak_literal chars)
  | mlBasic body => exact innerLines_multiline _ (by decide)
  | mlLiteral body => exact innerLines_multiline _ (by decide)

/-- A value begins with a byte of its own. -/
theorem Value.render_eq_cons (o : Origin) (v : Value) :
    ∃ t r, v.render o = t :: r ∧ IsInnerStart t.2 := by
  cases v with
  | scalar first rest => exact ⟨(o, first.val), _, rfl, Or.inl first.property⟩
  | string s =>
    cases s with
    | basic chars => exact ⟨(o, 0x22), _, rfl, (by decide : IsInnerStart 0x22)⟩
    | literal chars => exact ⟨(o, 0x27), _, rfl, (by decide : IsInnerStart 0x27)⟩
    | mlBasic body => exact ⟨(.multiline, 0x22), _, rfl, (by decide : IsInnerStart 0x22)⟩
    | mlLiteral body => exact ⟨(.multiline, 0x27), _, rfl, (by decide : IsInnerStart 0x27)⟩
  | array items => exact ⟨(.array, 0x5B), _, rfl, (by decide : IsInnerStart 0x5B)⟩
  | emptyTable blanks => exact ⟨(.table, 0x7B), _, rfl, (by decide : IsInnerStart 0x7B)⟩
  | inlineTable blanks entries => exact ⟨(.table, 0x7B), _, rfl, (by decide : IsInnerStart 0x7B)⟩

/-- A value between two gaps, up to the byte that ends the second. -/
theorem innerLines_item (before after : Gap) {v : Value} (hv : InnerLines (v.render .array))
    {t : Placed} {r : List Placed} (ht : IsInnerStart t.2) (hr : InnerLines (t :: r)) :
    InnerLines (renderGap before ++ v.render .array ++ renderGap after ++ t :: r) := by
  obtain ⟨t', r', heq, ht'⟩ := v.render_eq_cons .array
  have hvalue : InnerLines (v.render .array ++ (renderGap after ++ t :: r)) :=
    hv.append (innerLines_gap after ht hr)
  rw [heq] at hvalue ⊢
  rw [List.append_assoc, List.append_assoc]
  exact innerLines_gap before ht' hvalue

/-- of a key and its equals sign, -/
theorem innerLines_pair (key : Key) (before after : Blanks) :
    InnerLines (mark .table (key.bytes ++ before.bytes ++ [0x3D] ++ after.bytes)) :=
  innerLines_mark _ ((((noBreak_key key).append (noBreak_blanks before)).append
    (noBreak_byte 0x3D (by decide))).append (noBreak_blanks after))

mutual

/-- **Every line that starts inside a value starts inside a multi-line string or begins like a line of an
array.** -/
theorem Value.innerLines (o : Origin) (v : Value) : InnerLines (v.render o) := by
  cases v with
  | scalar first rest =>
    have hfirst : ¬ IsBreak first.val := not_isBreak (by decide) (by decide) first.property
    have hrest : NoBreak rest.bytes := noBreak_run (by decide) (by decide) rest
    exact innerLines_mark o (NoBreak.cons hfirst hrest)
  | string s => exact s.innerLines o
  | array items => exact (innerLines_mark _ (noBreak_byte 0x5B (by decide))).append items.innerLines
  | emptyTable blanks =>
    exact innerLines_mark _ (((noBreak_byte 0x7B (by decide)).append (noBreak_blanks blanks)).append
      (noBreak_byte 0x7D (by decide)))
  | inlineTable blanks entries =>
    exact (innerLines_mark _ (NoBreak.cons (by decide) (noBreak_blanks blanks))).append
      entries.innerLines

/-- of the items of an array, -/
theorem Items.innerLines (items : Items) : InnerLines items.render := by
  cases items with
  | close gap =>
    exact innerLines_gap gap (by decide : IsInnerStart 0x5D)
      (innerLines_mark _ (noBreak_byte 0x5D (by decide)))
  | last before value after =>
    exact innerLines_item before after (value.innerLines .array) (by decide : IsInnerStart 0x5D)
      (innerLines_mark _ (noBreak_byte 0x5D (by decide)))
  | cons before value after rest =>
    have hrest : InnerLines (mark .array [0x2C] ++ rest.render) :=
      (innerLines_mark _ (noBreak_byte 0x2C (by decide))).append rest.innerLines
    rw [Items.render, List.append_assoc]
    exact innerLines_item before after (value.innerLines .array) (by decide : IsInnerStart 0x2C) hrest

/-- and of the entries of an inline table. -/
theorem Entries.innerLines (entries : Entries) : InnerLines entries.render := by
  cases entries with
  | last key before after value close =>
    have hclose : InnerLines (mark .table (close.bytes ++ [0x7D])) :=
      innerLines_mark _ ((noBreak_blanks close).append (noBreak_byte 0x7D (by decide)))
    exact ((innerLines_pair key before after).append (value.innerLines .table)).append hclose
  | cons key before after value close next rest =>
    have hnext : InnerLines (mark .table (close.bytes ++ [0x2C] ++ next.bytes)) :=
      innerLines_mark _ (((noBreak_blanks close).append (noBreak_byte 0x2C (by decide))).append
        (noBreak_blanks next))
    exact (((innerLines_pair key before after).append (value.innerLines .table)).append
      hnext).append rest.innerLines

end

end CvmMeasure.Toml
