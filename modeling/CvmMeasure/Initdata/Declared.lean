import CvmMeasure.Initdata.Algorithm
import CvmMeasure.Toml.LineStarts

/-! # The algorithm a TOML document declares

`parse_algorithm` reads lines where TOML has a syntax. Against the syntax tree of a document, the line
that decides is a pair of the root table, or a line of a multi-line string; a line of an array never
declares an algorithm.

* **`key_of_beginsAlgorithm`**, **`readsName_of_beginsName`**: an algorithm line that begins a pair is the
  root key, with the string between its quotes if they are the same;
* **`decidingLine_of_match`**: where the line that decides stands;
* **`reads_declared_iff`**: the algorithm read is the one declared exactly on documents that are not
  misread. -/

namespace CvmMeasure.Initdata

open Binary Python Sequence Toml

/-! ## The string behind the sign -/

/-- What the name and the closing quote say about a string with quote `q`: the name is the whole string,
or the other quote goes on with it. -/
def ReadsName (q : UInt8) (found : AlgorithmMatch) (value : Bytes) : Prop :=
  (found.closing = q ∧ value = found.name) ∨
    (found.closing ≠ q ∧ ∃ z, value = found.name ++ found.closing :: z)

/-- A name and a quote, read out of a string with quote `q`: each of its characters is a byte other than
`q` that stands for itself, or begins with a byte that neither belongs to a name nor ends one. -/
theorem readsName_chars {α : Type} {bytes value : α → Bytes} {q : UInt8} (hq : ¬ IsNameByte q)
    (hchar : ∀ c, (∃ b, b ≠ q ∧ bytes c = [b] ∧ value c = [b]) ∨
      ∃ b tail, bytes c = b :: tail ∧ ¬ IsNameByte b ∧ ¬ IsQuote b)
    {chars : List α} {name rest y : Bytes} {closing : UInt8}
    (heq : chars.flatMap bytes ++ q :: y = name ++ closing :: rest)
    (hname : ∀ b ∈ name, IsNameByte b) (hclosing : IsQuote closing) :
    (closing = q ∧ chars.flatMap value = name) ∨
      (closing ≠ q ∧ ∃ z, chars.flatMap value = name ++ closing :: z) := by
  induction chars generalizing name with
  | nil =>
    cases name with
    | nil =>
      obtain ⟨rfl, -⟩ := List.cons.inj heq
      exact Or.inl ⟨rfl, rfl⟩
    | cons n name =>
      obtain ⟨rfl, -⟩ := List.cons.inj heq
      exact absurd (hname _ List.mem_cons_self) hq
  | cons c chars ih =>
    rw [List.flatMap_cons] at heq ⊢
    rcases hchar c with ⟨b, hne, hbytes, hvalue⟩ | ⟨b, tail, hbytes, hnotName, hnotQuote⟩
    · rw [hbytes] at heq
      rw [hvalue]
      cases name with
      | nil =>
        -- the string goes on with a quote that is not its own
        obtain ⟨rfl, -⟩ := List.cons.inj heq
        exact Or.inr ⟨hne, chars.flatMap value, rfl⟩
      | cons n name =>
        obtain ⟨rfl, htail⟩ := List.cons.inj heq
        rcases ih htail fun x hx => hname x (List.mem_cons_of_mem _ hx) with
          ⟨hc, hrest⟩ | ⟨hc, z, hrest⟩
        · exact Or.inl ⟨hc, congrArg (b :: ·) hrest⟩
        · exact Or.inr ⟨hc, z, congrArg (b :: ·) hrest⟩
    · rw [hbytes] at heq
      cases name with
      | nil =>
        obtain ⟨rfl, -⟩ := List.cons.inj heq
        exact absurd hclosing hnotQuote
      | cons n name =>
        obtain ⟨rfl, -⟩ := List.cons.inj heq
        exact absurd (hname _ List.mem_cons_self) hnotName

/-- A backslash neither belongs to a name nor ends one. -/
theorem basicChar_cases (c : BasicChar) : (∃ b, b ≠ 0x22 ∧ c.bytes = [b] ∧ c.value = [b]) ∨
    ∃ b tail, c.bytes = b :: tail ∧ ¬ IsNameByte b ∧ ¬ IsQuote b := by
  cases c with
  | plain b =>
    refine Or.inl ⟨b.val, fun hb => ?_, rfl, rfl⟩
    exact absurd (hb ▸ b.property) (by decide : ¬ IsBasicUnescaped 0x22)
  | escape e =>
    have hbackslash : ¬ IsNameByte 0x5C ∧ ¬ IsQuote 0x5C := by decide
    cases e with
    | letter b => exact Or.inr ⟨0x5C, _, rfl, hbackslash⟩
    | unicode digits h => exact Or.inr ⟨0x5C, _, rfl, hbackslash⟩

/-- A literal string is read up to its closing quote, or up to a quote inside. -/
theorem literal_readsName {chars : Run IsLiteralChar} {name rest y : Bytes} {closing : UInt8}
    (heq : chars.bytes ++ 0x27 :: y = name ++ closing :: rest)
    (hname : ∀ b ∈ name, IsNameByte b) (hclosing : IsQuote closing) :
    (closing = 0x27 ∧ chars.bytes = name) ∨
      (closing ≠ 0x27 ∧ ∃ z, chars.bytes = name ++ closing :: z) := by
  have hne : ∀ b : {b // IsLiteralChar b}, b.val ≠ 0x27 := by
    intro b hb
    exact absurd (hb ▸ b.property) (by decide : ¬ IsLiteralChar 0x27)
  rw [Run.bytes, List.map_eq_flatMap] at heq ⊢
  exact readsName_chars (by decide) (fun b => Or.inl ⟨b.val, hne b, rfl, rfl⟩) heq hname hclosing

/-- **A value that begins with a quoted name is a string on one line**, whose value is the name if the
two quotes are the same. -/
theorem readsName_of_beginsName {o : Origin} {v : Value} {y : Bytes} {found : AlgorithmMatch}
    (h : BeginsName ((v.render o).map Prod.snd ++ y) found) :
    ∃ s, v = .string s ∧ ReadsName found.opening found s.value := by
  obtain ⟨⟨rest, htext⟩, hopening, hne, hname, hclosing⟩ := h
  cases v with
  | scalar first rest' =>
    obtain ⟨hfirst, -⟩ := List.cons.inj htext
    have hstart : IsScalarStart found.opening := hfirst ▸ first.property
    rcases hopening with hq | hq <;> rw [hq] at hstart <;> exact absurd hstart (by decide)
  | array items =>
    have hfirst : (0x5B : UInt8) = found.opening := (List.cons.inj htext).1
    rw [← hfirst] at hopening
    exact absurd hopening (by decide)
  | emptyTable blanks =>
    have hfirst : (0x7B : UInt8) = found.opening := (List.cons.inj htext).1
    rw [← hfirst] at hopening
    exact absurd hopening (by decide)
  | inlineTable blanks entries =>
    have hfirst : (0x7B : UInt8) = found.opening := (List.cons.inj htext).1
    rw [← hfirst] at hopening
    exact absurd hopening (by decide)
  | string s =>
    refine ⟨s, rfl, ?_⟩
    obtain ⟨n, name, hcons⟩ := List.exists_cons_of_ne_nil hne
    have hn : IsNameByte n := hname n (hcons ▸ List.mem_cons_self)
    cases s with
    | basic chars =>
      simp only [Value.render, Str.render, map_snd_mark, Str.bytes, List.cons_append,
        List.append_assoc] at htext
      obtain ⟨hfirst, htail⟩ := List.cons.inj htext
      rw [← hfirst]
      exact readsName_chars (by decide) basicChar_cases htail hname hclosing
    | literal chars =>
      simp only [Value.render, Str.render, map_snd_mark, Str.bytes, List.cons_append,
        List.append_assoc] at htext
      obtain ⟨hfirst, htail⟩ := List.cons.inj htext
      rw [← hfirst]
      exact literal_readsName htail hname hclosing
    | mlBasic body =>
      -- the second quote would belong to the name
      rw [hcons] at htext
      have hsecond : (0x22 : UInt8) = n := (List.cons.inj (List.cons.inj htext).2).1
      rw [← hsecond] at hn
      exact absurd hn (by decide)
    | mlLiteral body =>
      rw [hcons] at htext
      have hsecond : (0x27 : UInt8) = n := (List.cons.inj (List.cons.inj htext).2).1
      rw [← hsecond] at hn
      exact absurd hn (by decide)

/-! ## The key in front of it -/

/-- Blanks are blanks, -/
theorem forall_mem_blanks (blanks : Blanks) : ∀ x ∈ blanks.bytes, IsBlank x := by
  intro x hx
  obtain ⟨b, -, rfl⟩ := List.mem_map.mp hx
  exact b.property

/-- and the bytes of a bare key are those of a bare key. -/
theorem forall_mem_bareKey (first : {b : UInt8 // IsBareKey b}) (rest : Run IsBareKey) :
    ∀ x ∈ first.val :: rest.bytes, IsBareKey x := by
  refine List.forall_mem_cons.mpr ⟨first.property, fun x hx => ?_⟩
  obtain ⟨b, -, rfl⟩ := List.mem_map.mp hx
  exact b.property

/-- A blank is in no bare key. -/
theorem not_isBareKey_of_isBlank {b : UInt8} (h : IsBlank b) : ¬ IsBareKey b := by
  rcases h with rfl | rfl <;> decide

/-- No value begins with a blank, and no line of an array, behind its blanks. -/
theorem not_isInnerStart_of_isBlank {b : UInt8} (h : IsBlank b) : ¬ IsInnerStart b := by
  rcases h with rfl | rfl <;> decide

/-- Blanks and a sign stop a bare key. -/
theorem stops_bareKey (blanks : Blanks) {x : UInt8} (hx : ¬ IsBareKey x) (y : Bytes) :
    Stops IsBareKey (blanks.bytes ++ x :: y) := by
  cases blanks with
  | nil => exact stops_cons hx y
  | cons b blanks => exact stops_cons (not_isBareKey_of_isBlank b.property) _

/-- A key begins with no blank. -/
theorem stops_key (key : Key) (y : Bytes) : Stops IsBlank (key.bytes ++ y) := by
  obtain ⟨first, rest⟩ := key
  cases first with
  | bare f fs => exact stops_cons (fun hblank => not_isBareKey_of_isBlank hblank f.property) _
  | basic chars => exact stops_cons (by decide : ¬ IsBlank 0x22) _
  | literal chars => exact stops_cons (by decide : ¬ IsBlank 0x27) _

/-- **A pair that begins like an algorithm line has the key `algorithm`**, and its value begins with the
quoted name. -/
theorem key_of_beginsAlgorithm {lead before after : Blanks} {key : Key} {text : Bytes}
    {found : AlgorithmMatch} (htext : Stops IsBlank text)
    (h : BeginsAlgorithm (lead.bytes ++ (key.bytes ++ (before.bytes ++ ([0x3D]
      ++ (after.bytes ++ text))))) found) :
    key.path = [asciiBytes "algorithm"] ∧ BeginsName text found := by
  obtain ⟨a, b, c, rest, ha, hb, hc, heq, hname⟩ := h
  have hrest : Stops IsBlank rest := by
    obtain ⟨tail, rfl⟩ := hname.text
    exact stops_cons (not_isBlank_of_isQuote hname.opening) _
  have hsign : ∀ y : Bytes, Stops IsBlank ([0x3D] ++ y) := fun y =>
    stops_cons (by decide : ¬ IsBlank 0x3D) y
  obtain ⟨-, heq⟩ := append_unique heq (forall_mem_blanks lead) ha (stops_key key _) (stops_algorithm _)
  obtain ⟨first, dotted⟩ := key
  cases first with
  | basic chars => exact absurd (List.cons.inj heq).1 (by decide)
  | literal chars => exact absurd (List.cons.inj heq).1 (by decide)
  | bare f fs =>
    simp only [Key.bytes, SimpleKey.bytes] at heq
    rw [List.append_assoc] at heq
    -- the letters of the key stop at a blank, a dot or the sign, those of the line at a blank or sign
    have hletters : ∀ x ∈ asciiBytes "algorithm", IsBareKey x := by decide +kernel
    have hstopsLine : Stops IsBareKey (b ++ (asciiBytes "=" ++ (c ++ rest))) := by
      cases b with
      | nil => exact stops_cons (by decide : ¬ IsBareKey 0x3D) _
      | cons x b => exact stops_cons (not_isBareKey_of_isBlank (hb x List.mem_cons_self)) _
    cases dotted with
    | nil =>
      rw [List.flatMap_nil, List.nil_append] at heq
      obtain ⟨hkey, heq⟩ := append_unique heq (forall_mem_bareKey f fs) hletters
        (stops_bareKey before (by decide) _) hstopsLine
      obtain ⟨-, heq⟩ := append_unique heq (forall_mem_blanks before) hb (hsign _) (hsign _)
      obtain ⟨-, rfl⟩ := append_unique (List.append_cancel_left heq) (forall_mem_blanks after) hc htext
        hrest
      exact ⟨congrArg (fun name => [name]) hkey, hname⟩
    | cons part dotted =>
      obtain ⟨w, w', k⟩ := part
      simp only [List.flatMap_cons, List.append_assoc] at heq
      obtain ⟨-, heq⟩ := append_unique heq (forall_mem_bareKey f fs) hletters
        (stops_bareKey w (by decide) _) hstopsLine
      -- a dot stands where the line has its sign
      obtain ⟨-, heq⟩ := append_unique heq (forall_mem_blanks w) hb
        (stops_cons (by decide : ¬ IsBlank 0x2E) _) (hsign _)
      exact absurd (List.cons.inj heq).1 (by decide)

/-! ## The line that decides -/

/-- The line of a document at which the search ends. -/
def decidingLine (placed : List Placed) : Option (List Placed) :=
  (splitlines Prod.snd placed).find? fun line => decides (line.map Prod.snd)

/-- The line begins in the root table, outside of any value. -/
def OpensRoot (line : List Placed) : Prop := ∃ t r, line = t :: r ∧ t.1 = .root

/-- The line is a pair of the root table with the key `algorithm`, and what is found in it says the
pair's value. -/
def DeclaresLine (pairs : List (Key × Value)) (line : List Placed) (found : AlgorithmMatch) : Prop :=
  OpensRoot line ∧ ∃ key s, (key, Value.string s) ∈ pairs ∧ key.path = [asciiBytes "algorithm"] ∧
    ReadsName found.opening found s.value

/-- The line that decides is found behind the origins of its bytes. -/
theorem find?_splitlines (placed : List Placed) :
    (splitlines id (placed.map Prod.snd)).find? decides
      = (decidingLine placed).map (List.map Prod.snd) := by
  have hlines := map_splitlines Prod.snd id placed
  rw [← hlines, List.find?_map]
  rfl

/-- The lines of a text, line by line. -/
theorem decidingLine_newline (x : List Placed) (o : Origin) (nl : Newline) (r : List Placed) :
    decidingLine (x ++ mark o nl.bytes ++ r)
      = (decidingLine (x ++ mark o nl.bytes)).or (decidingLine r) := by
  have hsplit : splitlines Prod.snd (x ++ mark o nl.bytes ++ r)
      = splitlines Prod.snd (x ++ mark o nl.bytes) ++ splitlines Prod.snd r := by
    cases nl with
    | lf =>
      rw [List.append_assoc]
      exact splitLoop_append (t := (o, 0x0A)) rfl false [] x r
    | crlf =>
      have hcr : ∀ y, x ++ mark o [0x0D, 0x0A] ++ y = (x ++ [(o, 0x0D)]) ++ (o, 0x0A) :: y := by
        intro y
        rw [List.append_assoc, List.append_assoc]
        rfl
      have hends := hcr []
      rw [List.append_nil] at hends
      rw [Newline.bytes, hcr, hends]
      exact splitLoop_append (t := (o, 0x0A)) rfl false [] (x ++ [(o, 0x0D)]) r
  rw [decidingLine, hsplit, List.find?_append]
  rfl

/-- The text of an expression ends the document or its line. -/
def IsLineEnd (z : List Placed) : Prop := z = [] ∨ ∃ o nl, z = mark o (Newline.bytes nl)

/-- No line starts behind the end of a line. -/
theorem IsLineEnd.followsBreak {z s : List Placed} (hz : IsLineEnd z)
    (h : FollowsBreak Prod.snd z s) : s = [] := by
  rcases hz with rfl | ⟨o, nl, rfl⟩
  · exact absurd h (not_followsBreak fun _ ht => absurd ht List.not_mem_nil)
  · rw [← List.append_nil (mark o nl.bytes)] at h
    rcases followsBreak_newline h with rfl | h
    · rfl
    · exact absurd h (not_followsBreak fun _ ht => absurd ht List.not_mem_nil)

/-- The end of a line begins with no blank, no bracket and no key. -/
theorem IsLineEnd.stops {z : List Placed} (hz : IsLineEnd z) :
    Stops (fun b => IsBlank b ∨ b = 0x5B ∨ b = 0x61) (z.map Prod.snd) := by
  rcases hz with rfl | ⟨o, nl, rfl⟩
  · exact stops_nil
  · rw [map_snd_mark]
    cases nl with
    | lf => exact stops_cons (by decide) _
    | crlf => exact stops_cons (by decide) _

/-- A comment or an empty line decides nothing. -/
theorem decidingLine_blank (lead : Blanks) (comment : Comment) {z : List Placed} (hz : IsLineEnd z) :
    decidingLine ((Expression.blank lead comment).render .root ++ z) = none := by
  have hstops : Stops (fun b => IsBlank b ∨ b = 0x5B ∨ b = 0x61)
      (comment.bytes ++ z.map Prod.snd) := by
    cases comment with
    | none => exact hz.stops
    | some text => exact stops_cons (by decide) _
  refine List.find?_eq_none.mpr fun line hline hdecides => ?_
  rcases mem_splitlines hline with hfront | ⟨s, hs, hfront⟩
  · -- the first byte behind the blanks neither opens a table nor begins the key
    obtain ⟨w, c, rest, hbytes, hw, hc⟩ := decides_start hdecides
    obtain ⟨more, hmore⟩ := hfront.map Prod.snd
    rw [hbytes, List.map_append, Expression.render, map_snd_mark, List.append_assoc,
      List.append_assoc] at hmore
    have hnotBlank : ¬ IsBlank c := by
      rcases hc with rfl | rfl <;> decide
    obtain ⟨-, heq⟩ := append_unique hmore hw (forall_mem_blanks lead)
      (stops_cons hnotBlank _) (fun x hx hblank => hstops x hx (Or.inl hblank))
    rw [← heq] at hstops
    exact hstops c rfl (Or.inr hc)
  · rcases hs.of_append with ⟨s', hs', -⟩ | hs
    · exact ((noBreak_blanks lead).append (noBreak_comment comment)).not_followsBreak _ hs'
    · rw [hz.followsBreak hs, List.prefix_nil] at hfront
      rw [hfront] at hdecides
      cases hdecides

/-- The search ends at a first line that decides. -/
theorem decidingLine_chunk {p : List Placed} (hp : ∀ t ∈ p, ¬ IsBreak t.2) (hne : p ≠ [])
    (hdecides : decides (p.map Prod.snd) = true) {z : List Placed} (hz : IsLineEnd z)
    (y : List Placed) (hy : z = [] → y = []) : decidingLine (p ++ (z ++ y)) = some p := by
  have hhead : ∃ lines, splitlines Prod.snd (p ++ (z ++ y)) = p :: lines := by
    rw [splitlines, splitLoop_chunk hp, List.nil_append]
    rcases hz with rfl | ⟨o, nl, rfl⟩
    · rw [hy rfl]
      cases p with
      | nil => exact absurd rfl hne
      | cons t p => exact ⟨[], rfl⟩
    · cases nl with
      | lf => exact ⟨_, rfl⟩
      | crlf => exact ⟨_, rfl⟩
  obtain ⟨lines, hlines⟩ := hhead
  rw [decidingLine, hlines]
  exact List.find?_cons_of_pos (p := fun line : List Placed => decides (line.map Prod.snd)) hdecides

/-- A table header is on one line. -/
theorem noBreak_tableBytes (double : Bool) (before : Blanks) (key : Key) (after : Blanks) :
    NoBreak (tableBytes double before key after) := by
  have hone : ∀ b : UInt8, ¬ IsBreak b → NoBreak [b, b] := fun b hb =>
    (noBreak_byte b hb).append (noBreak_byte b hb)
  cases double with
  | false =>
    exact ((((noBreak_byte 0x5B (by decide)).append (noBreak_blanks before)).append
      (noBreak_key key)).append (noBreak_blanks after)).append (noBreak_byte 0x5D (by decide))
  | true =>
    exact ((((hone 0x5B (by decide)).append (noBreak_blanks before)).append
      (noBreak_key key)).append (noBreak_blanks after)).append (hone 0x5D (by decide))

/-- A table header ends the search, and declares nothing. -/
theorem decidingLine_table (lead : Blanks) (double : Bool) (before : Blanks) (key : Key)
    (after trail : Blanks) (comment : Comment) {z : List Placed} (hz : IsLineEnd z)
    (y : List Placed) (hy : z = [] → y = []) {line : List Placed} {found : AlgorithmMatch}
    (h : decidingLine ((Expression.table lead double before key after trail comment).render .root
      ++ (z ++ y)) = some line) : matchAlgorithm (line.map Prod.snd) ≠ some found := by
  have hbytes : NoBreak (lead.bytes ++ tableBytes double before key after ++ trail.bytes
      ++ comment.bytes) :=
    (((noBreak_blanks lead).append (noBreak_tableBytes double before key after)).append
      (noBreak_blanks trail)).append (noBreak_comment comment)
  have hheader : isTableHeader (lead.bytes ++ tableBytes double before key after ++ trail.bytes
      ++ comment.bytes) = true := by
    obtain ⟨rest, hrest⟩ : ∃ rest, tableBytes double before key after = 0x5B :: rest := by
      cases double with
      | false => exact ⟨_, rfl⟩
      | true => exact ⟨_, rfl⟩
    rw [hrest, List.append_assoc, List.append_assoc, isTableHeader, List.cons_append,
      dropWhile_append_stops (forall_mem_blanks lead) (stops_cons (by decide : ¬ IsBlank 0x5B) _)]
    rfl
  intro hmatch
  have hline : decidingLine (mark .table (lead.bytes ++ tableBytes double before key after
      ++ trail.bytes ++ comment.bytes) ++ (z ++ y)) = some (mark .table (lead.bytes
        ++ tableBytes double before key after ++ trail.bytes ++ comment.bytes)) := by
    refine decidingLine_chunk ?_ ?_ ?_ hz y hy
    · exact List.forall_mem_map.mpr hbytes
    · intro hnil
      rw [List.map_eq_nil_iff.mp hnil] at hheader
      cases hheader
    · rw [map_snd_mark, decides, hheader, Bool.true_or]
  rw [Option.some.inj (h.symm.trans hline), map_snd_mark] at hmatch
  rw [not_isTableHeader hmatch] at hheader
  cases hheader

section Pair

variable {lead before after trail : Blanks} {key : Key} {value : Value} {comment : Comment}

/-- The bytes of a pair, and of what ends its line. -/
theorem map_snd_keyval (z : List Placed) :
    ((Expression.keyval lead key before after value trail comment).render .root ++ z).map Prod.snd
      = lead.bytes ++ (key.bytes ++ (before.bytes ++ ([0x3D] ++ (after.bytes
        ++ ((value.render .root).map Prod.snd
          ++ (trail.bytes ++ comment.bytes ++ z.map Prod.snd)))))) := by
  simp only [Expression.render, List.map_append, map_snd_mark, List.append_assoc]

/-- A pair begins in its own place. -/
theorem keyval_head (o : Origin) (lead : Blanks) (key : Key) (before after : Blanks) (value : Value)
    (trail : Blanks) (comment : Comment) :
    ∃ b y, (Expression.keyval lead key before after value trail comment).render o = (o, b) :: y := by
  cases lead with
  | cons b lead => exact ⟨b.val, _, rfl⟩
  | nil =>
    obtain ⟨first, rest⟩ := key
    cases first with
    | bare f fs => exact ⟨f.val, _, rfl⟩
    | basic chars => exact ⟨0x22, _, rfl⟩
    | literal chars => exact ⟨0x27, _, rfl⟩

/-- A value begins with no blank. -/
theorem stops_value (o : Origin) (v : Value) (y : Bytes) :
    Stops IsBlank ((v.render o).map Prod.snd ++ y) := by
  obtain ⟨t, r, heq, ht⟩ := v.render_eq_cons o
  rw [heq]
  exact stops_cons (fun hblank => not_isInnerStart_of_isBlank hblank ht) _

/-- A line that begins like one of an array declares nothing. -/
theorem not_beginsAlgorithm_of_opensInner {s : List Placed} {found : AlgorithmMatch}
    (hs : OpensInner s) : ¬ BeginsAlgorithm (s.map Prod.snd) found := by
  rintro ⟨a, b, c, rest, ha, -, -, heq, -⟩
  obtain ⟨w, t, r, rfl, hw, ht⟩ := hs
  rw [List.map_append, List.map_cons] at heq
  have hw' : ∀ x ∈ w.map Prod.snd, IsBlank x := List.forall_mem_map.mpr hw
  have hstops : Stops IsBlank (t.2 :: r.map Prod.snd) :=
    stops_cons (fun hblank => not_isInnerStart_of_isBlank hblank ht) _
  obtain ⟨-, heq⟩ := append_unique heq hw' ha hstops (stops_algorithm _)
  -- the key's first letter begins no value
  have hfirst : t.2 = 0x61 := (List.cons.inj heq).1
  rw [hfirst] at ht
  exact absurd ht (by decide)

/-- The inner lines of a key and its value. -/
theorem innerLines_keyval :
    InnerLines ((Expression.keyval lead key before after value trail comment).render .root) :=
  ((innerLines_mark _ (((((noBreak_blanks lead).append (noBreak_key key)).append
    (noBreak_blanks before)).append (noBreak_byte 0x3D (by decide))).append
    (noBreak_blanks after))).append (value.innerLines .root)).append
    (innerLines_mark _ ((noBreak_blanks trail).append (noBreak_comment comment)))

/-- **A line of a pair that declares an algorithm stands in a multi-line string, or is the first line of
the root key `algorithm`.** -/
theorem line_of_keyval {z line : List Placed} {found : AlgorithmMatch} (hz : IsLineEnd z)
    (hline : line ∈ splitlines Prod.snd
      ((Expression.keyval lead key before after value trail comment).render .root ++ z))
    (hmatch : matchAlgorithm (line.map Prod.snd) = some found) :
    OpensMultiline line ∨ DeclaresLine [(key, value)] line found := by
  have hbegins := matchAlgorithm_eq_some.mp hmatch
  obtain ⟨t, r, rfl⟩ : ∃ t r, line = t :: r := by
    cases line with
    | nil => cases hmatch
    | cons t r => exact ⟨t, r, rfl⟩
  rcases mem_splitlines hline with hfront | ⟨s, hs, hfront⟩
  · -- the first line of the pair
    obtain ⟨more, hmore⟩ := hfront.map Prod.snd
    rw [map_snd_keyval] at hmore
    obtain ⟨hpath, hname⟩ := key_of_beginsAlgorithm (stops_value .root value _)
      (hmore ▸ hbegins.append more)
    obtain ⟨s, rfl, hreads⟩ := readsName_of_beginsName hname
    refine Or.inr ⟨⟨t, r, rfl, ?_⟩, key, s, List.mem_singleton_self _, hpath, hreads⟩
    obtain ⟨b, y, hhead⟩ := keyval_head .root lead key before after (.string s) trail comment
    rw [hhead] at hfront
    rw [(List.cons_prefix_cons.mp hfront).1]
  · obtain ⟨more, rfl⟩ := hfront
    rcases hs.of_append with ⟨s', hs', heq⟩ | hs
    · rcases innerLines_keyval s' hs' with hmulti | hinner
      · obtain ⟨t', r', heq', hplace⟩ := hmulti.append z
        rw [← heq] at heq'
        exact Or.inl ⟨t, r, rfl, (List.cons.inj heq').1 ▸ hplace⟩
      · have hinner' := hinner.append z
        rw [← heq] at hinner'
        have hbegins' := hbegins.append (more.map Prod.snd)
        rw [← List.map_append] at hbegins'
        exact absurd hbegins' (not_beginsAlgorithm_of_opensInner hinner')
    · exact absurd (hz.followsBreak hs) (List.cons_ne_nil _ _)

end Pair

/-! ## The document -/

/-- A line that declares the algorithm does so in a longer document. -/
theorem DeclaresLine.mono {pairs pairs' : List (Key × Value)} {line : List Placed}
    {found : AlgorithmMatch} (h : DeclaresLine pairs line found)
    (hpairs : ∀ pair ∈ pairs, pair ∈ pairs') : DeclaresLine pairs' line found := by
  obtain ⟨hroot, key, s, hmem, hrest⟩ := h
  exact ⟨hroot, key, s, hpairs _ hmem, hrest⟩

/-- **Where the line that decides stands**: if it declares an algorithm, it is a line of a multi-line
string, or the first line of the root key `algorithm`. -/
theorem decidingLine_of_match (e : Expression) (rest : List (Newline × Expression))
    {line : List Placed} {found : AlgorithmMatch}
    (hline : decidingLine (renderLines .root e rest) = some line)
    (hmatch : matchAlgorithm (line.map Prod.snd) = some found) :
    OpensMultiline line ∨ DeclaresLine (rootPairs e rest) line found := by
  induction rest generalizing e with
  | nil =>
    have hz : IsLineEnd [] := Or.inl rfl
    rw [renderLines, ← List.append_nil (e.render .root)] at hline
    cases e with
    | blank lead comment =>
      rw [decidingLine_blank lead comment hz] at hline
      cases hline
    | keyval lead key before after value trail comment =>
      exact line_of_keyval hz (List.mem_of_find?_eq_some hline) hmatch
    | table lead double before key after trail comment =>
      exact absurd hmatch (decidingLine_table lead double before key after trail comment hz []
        (fun _ => rfl) hline)
  | cons next rest ih =>
    obtain ⟨nl, e'⟩ := next
    have hz : IsLineEnd (mark (e.place .root) nl.bytes) := Or.inr ⟨_, nl, rfl⟩
    cases e with
    | blank lead comment =>
      rw [renderLines, decidingLine_newline, decidingLine_blank lead comment hz,
        Option.none_or] at hline
      exact ih e' hline
    | keyval lead key before after value trail comment =>
      rw [renderLines, decidingLine_newline, Option.or_eq_some_iff] at hline
      rcases hline with hline | ⟨-, hline⟩
      · refine (line_of_keyval hz (List.mem_of_find?_eq_some hline) hmatch).imp_right fun h => ?_
        refine h.mono fun pair hpair => ?_
        rw [List.mem_singleton.mp hpair]
        exact List.mem_cons_self
      · exact (ih e' hline).imp_right fun h => h.mono fun pair => List.mem_cons_of_mem _
    | table lead double before key after trail comment =>
      rw [renderLines, List.append_assoc] at hline
      refine absurd hmatch (decidingLine_table lead double before key after trail comment hz _ ?_ hline)
      intro hnil
      cases nl <;> cases hnil

/-- The algorithm read is the one the document declares, and text in a multi-line string, an array or a
table never decides it. -/
structure ReadsDeclared (hashNew : String → Bytes → Bytes) (doc : Document) : Prop where
  /-- The name returned is the string of the root key `algorithm`. -/
  declared : ∀ name, parseAlgorithm doc.bytes = .ok name →
    doc.HasString (asciiBytes "algorithm") (asciiBytes name)
  /-- It is read from a line that begins in the root table. -/
  root_line : ∀ name, parseAlgorithm doc.bytes = .ok name →
    ∀ line, decidingLine doc.render = some line → OpensRoot line
  /-- A document that does not declare a name is refused. -/
  refused : (∀ name, ¬ doc.HasString (asciiBytes "algorithm") (asciiBytes name)) →
    ∃ message, parseAlgorithm doc.bytes = .error (.valueError message)
  /-- What cannot be read is not digested. -/
  unread : ∀ required, (∀ name, parseAlgorithm doc.bytes ≠ .ok name) →
    ∃ message, computeDigest hashNew doc.bytes required = .error (.valueError message)
  /-- What is digested is digested with the algorithm declared. -/
  digested : ∀ required digest, computeDigest hashNew doc.bytes required = .ok digest →
    ∃ name, doc.HasString (asciiBytes "algorithm") (asciiBytes name) ∧
      digest = hashNew name doc.bytes

/-- The line that decides names a supported algorithm, and stands in a multi-line string or closes with
another quote than it opens with. -/
def Misread (doc : Document) : Prop :=
  ∃ line found, decidingLine doc.render = some line ∧
    matchAlgorithm (line.map Prod.snd) = some found ∧ asciiText found.name ∈ supportedAlgorithms ∧
    (OpensMultiline line ∨ found.closing ≠ found.opening)

/-- What is read, and the line it is read from. -/
theorem parseAlgorithm_bytes_eq_ok {doc : Document} {name : String} :
    parseAlgorithm doc.bytes = .ok name ↔
      ∃ line found, decidingLine doc.render = some line ∧
        matchAlgorithm (line.map Prod.snd) = some found ∧ asciiText found.name = name ∧
        name ∈ supportedAlgorithms := by
  rw [parseAlgorithm_eq_ok, Document.bytes, find?_splitlines]
  constructor
  · rintro ⟨_, found, hline, hrest⟩
    obtain ⟨line, hplaced, rfl⟩ := Option.map_eq_some_iff.mp hline
    exact ⟨line, found, hplaced, hrest⟩
  · rintro ⟨line, found, hline, hrest⟩
    exact ⟨_, found, Option.map_eq_some_iff.mpr ⟨line, hline, rfl⟩, hrest⟩

/-- On a document that is not misread, the name returned is declared in the line it is read from. -/
theorem declared_of_not_misread {doc : Document} (h : ¬ Misread doc) {name : String}
    (hname : parseAlgorithm doc.bytes = .ok name) :
    doc.HasString (asciiBytes "algorithm") (asciiBytes name) ∧
      ∀ line, decidingLine doc.render = some line → OpensRoot line := by
  obtain ⟨line, found, hline, hmatch, rfl, hsupported⟩ := parseAlgorithm_bytes_eq_ok.mp hname
  rcases decidingLine_of_match _ _ hline hmatch with hmulti | ⟨hroot, key, s, hmem, hpath, hreads⟩
  · exact absurd ⟨line, found, hline, hmatch, hsupported, Or.inl hmulti⟩ h
  · rcases hreads with ⟨-, hvalue⟩ | ⟨hclosing, -⟩
    · obtain ⟨_, _, _, _, -, -, -, -, hbegins⟩ := matchAlgorithm_eq_some.mp hmatch
      refine ⟨⟨key, s, hmem, hpath, ?_⟩, fun line' hline' => ?_⟩
      · rw [asciiBytes_asciiText hbegins.name, hvalue]
      · rwa [Option.some.inj (hline'.symm.trans hline)]
    · exact absurd ⟨line, found, hline, hmatch, hsupported, Or.inr hclosing⟩ h

/-- **The algorithm read is the one declared exactly on the documents that are not misread.** -/
theorem reads_declared_iff (hashNew : String → Bytes → Bytes) (doc : Document) :
    ReadsDeclared hashNew doc ↔ ¬ Misread doc := by
  constructor
  · rintro hreads ⟨line, found, hline, hmatch, hsupported, hwrong⟩
    have hname : parseAlgorithm doc.bytes = .ok (asciiText found.name) :=
      parseAlgorithm_bytes_eq_ok.mpr ⟨line, found, hline, hmatch, rfl, hsupported⟩
    obtain ⟨t, r, rfl, hroot⟩ := hreads.root_line _ hname line hline
    rcases decidingLine_of_match _ _ hline hmatch with hmulti | ⟨-, key, s, hmem, hpath, hvalue⟩
    · obtain ⟨t', r', heq, hplace⟩ := hmulti
      rw [← (List.cons.inj heq).1, hroot] at hplace
      cases hplace
    · rcases hwrong with ⟨t', r', heq, hplace⟩ | hclosing
      · rw [← (List.cons.inj heq).1, hroot] at hplace
        cases hplace
      · -- the string goes on behind the name
        obtain ⟨z, hz⟩ := (hvalue.resolve_left fun h => hclosing h.1).2
        obtain ⟨_, _, _, _, -, -, -, -, hbegins⟩ := matchAlgorithm_eq_some.mp hmatch
        have hdeclared := hreads.declared _ hname
        rw [asciiBytes_asciiText hbegins.name] at hdeclared
        have heq : found.name ++ found.closing :: z = found.name :=
          Document.HasString.unique ⟨key, s, hmem, hpath, hz⟩ hdeclared
        exact absurd (List.append_right_eq_self.mp heq) (List.cons_ne_nil _ _)
  · intro h
    constructor
    case declared => exact fun name hname => (declared_of_not_misread h hname).1
    case root_line => exact fun name hname => (declared_of_not_misread h hname).2
    case refused =>
      intro hnone
      refine (onlyValueError_parseAlgorithm doc.bytes).ok_or_valueError.resolve_left ?_
      rintro ⟨name, hname⟩
      exact hnone name (declared_of_not_misread h hname).1
    case unread =>
      intro required hnone
      obtain ⟨message, herror⟩ := (onlyValueError_parseAlgorithm doc.bytes).ok_or_valueError.resolve_left
        fun ⟨name, hname⟩ => hnone name hname
      exact ⟨message, by rw [computeDigest, herror, error_bind]⟩
    case digested =>
      intro required digest hdigest
      obtain ⟨name, hname, rfl⟩ := computeDigest_eq_ok hdigest
      exact ⟨name, (declared_of_not_misread h hname).1, rfl⟩

/-! ## A document that is misread -/

/-- The bytes of an ASCII text that are of one kind. -/
def runOf (P : UInt8 → Prop) [DecidablePred P] (s : String) : Run P :=
  (asciiBytes s).filterMap fun b => if h : P b then some ⟨b, h⟩ else none

/-- The key `algorithm`. -/
def algorithmKey : Key := ⟨.bare ⟨0x61, by decide⟩ (runOf IsBareKey "lgorithm"), []⟩

/-- A pair with single blanks around its sign. -/
def samplePair (key : Key) (value : Value) : Expression :=
  .keyval [] key (runOf IsBlank " ") (runOf IsBlank " ") value [] none

/-- A note that holds an algorithm line, in front of the key. -/
def shadowedDocument : Document where
  first := samplePair ⟨.bare ⟨0x6E, by decide⟩ (runOf IsBareKey "ote"), []⟩
    (.string (.mlLiteral
      { start := .newline .lf :: (runOf IsLiteralChar "algorithm = \"sha256\"").map .char
          ++ [.newline .lf]
        runs := []
        stop := none }))
  rest := [(.lf, samplePair algorithmKey
      (.string (.basic ((runOf IsBasicUnescaped "sha384").map .plain)))),
    (.lf, .blank [] none)]
  keys_nodup := by decide

example : shadowedDocument.bytes
    = asciiBytes "note = '''\nalgorithm = \"sha256\"\n'''\nalgorithm = \"sha384\"\n" := by
  decide

/-- The algorithm in the note is returned. -/
theorem reads_declared_shadowed : ¬ ReadsDeclared (fun _ data => data) shadowedDocument := by
  intro h
  have hname : parseAlgorithm shadowedDocument.bytes = .ok "sha256" := by decide +kernel
  have hkey : shadowedDocument.HasString (asciiBytes "algorithm") (asciiBytes "sha384") :=
    ⟨algorithmKey, .basic ((runOf IsBasicUnescaped "sha384").map .plain),
      List.mem_cons_of_mem _ List.mem_cons_self, by decide, by decide⟩
  exact absurd (Document.HasString.unique (h.declared _ hname) hkey) (by decide)

end CvmMeasure.Initdata
