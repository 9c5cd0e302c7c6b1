import CvmMeasure.Json.Parse
import Mathlib.Data.Bool.AllAny
import Mathlib.Data.List.Forall2
import Mathlib.Data.List.TakeWhile

/-! # JSON text round-trips

What `dumps` writes, `loads` reads back: one lemma for each kind of token, an induction over the document for
the rest. A number ends where the text after it says so, hence `Ends`.

* **`Plain`**: a document without floats and with no key twice in an object;
* **`scanChars_escaped`**: a string is read back, whatever its characters;
* **`parseValue_dumpsAt`**: so is a plain document, inside any text;
* **`loads_dumps`**: and alone, with whitespace behind it;
* **`dumps_ascii`**: its text is ASCII. -/

namespace CvmMeasure.Json

open Python

/-! ## Strings -/

/-- The letter of an escape is read as its character. -/
theorem shortEscape_of_lookup {c letter : Char} (h : shortEscapes.lookup c = some letter) :
    letter ≠ 'u' ∧ shortEscape? letter = some c := by
  have hall : ∀ p ∈ shortEscapes, p.2 ≠ 'u' ∧ shortEscape? p.2 = some p.1 := by
    simp only [shortEscapes, List.forall_mem_cons]
    decide
  obtain ⟨_, _, hmem, -⟩ := List.lookup_eq_some_iff.mp h
  refine hall (c, letter) ?_
  rw [hmem]
  exact List.mem_append_right _ List.mem_cons_self

/-- The four digits of a code unit are read back. -/
theorem unit_escapeUnit {n : Nat} (h : n < 0x10000) :
    unit? (hexDigit (n / 4096)) (hexDigit (n / 256 % 16)) (hexDigit (n / 16 % 16)) (hexDigit (n % 16))
      = some n := by
  have hn : n / 4096 * 4096 + n / 256 % 16 * 256 + n / 16 % 16 * 16 + n % 16 = n := by omega
  rw [unit?, hexValue_hexDigit (by omega), hexValue_hexDigit (by omega), hexValue_hexDigit (by omega),
    hexValue_hexDigit (by omega)]
  simp only [Option.bind_eq_bind, Option.bind_some, Option.pure_def, hn]

/-- Below the surrogates and above them, one unit is one character. -/
theorem scanChars_unit {c : Char} (hbmp : c.toNat < 0x10000) (cs : List Char) :
    scanChars (escapeUnit c.toNat ++ cs) = (scanChars cs).map fun p => (c :: p.1, p.2) := by
  have hscalar := toNat_scalar c
  have hhigh : isHighSurrogate c.toNat = false := by
    simp only [isHighSurrogate, Bool.and_eq_false_iff, decide_eq_false_iff_not]
    omega
  have hlow : isLowSurrogate c.toNat = false := by
    simp only [isLowSurrogate, Bool.and_eq_false_iff, decide_eq_false_iff_not]
    omega
  rw [escapeUnit]
  simp only [List.cons_append, List.nil_append]
  rw [scanChars.eq_def]
  simp [unit_escapeUnit hbmp, hhigh, hlow]

/-- Two units, a high surrogate and a low one, are one character. -/
theorem scanChars_pair {c : Char} {m : Nat} (hm : c.toNat = 0x10000 + m) (cs : List Char) :
    scanChars (escapeUnit (0xD800 + m / 0x400) ++ escapeUnit (0xDC00 + m % 0x400) ++ cs)
      = (scanChars cs).map fun p => (c :: p.1, p.2) := by
  have hscalar := toNat_scalar c
  have hhi : 0xD800 + m / 0x400 < 0x10000 := by omega
  have hlo : 0xDC00 + m % 0x400 < 0x10000 := by omega
  have hfirst : isLowSurrogate (0xD800 + m / 0x400) = false := by
    simp only [isLowSurrogate, Bool.and_eq_false_iff, decide_eq_false_iff_not]
    omega
  have hhigh : isHighSurrogate (0xD800 + m / 0x400) = true := by
    simp only [isHighSurrogate, Bool.and_eq_true, decide_eq_true_eq]
    omega
  have hlow : isLowSurrogate (0xDC00 + m % 0x400) = true := by
    simp only [isLowSurrogate, Bool.and_eq_true, decide_eq_true_eq]
    omega
  have hvalue : 0x10000 + (0xD800 + m / 0x400 - 0xD800) * 0x400 + (0xDC00 + m % 0x400 - 0xDC00) = c.toNat := by
    omega
  rw [escapeUnit, escapeUnit]
  simp only [List.cons_append, List.nil_append]
  rw [scanChars.eq_def]
  simp only [unit_escapeUnit hhi, unit_escapeUnit hlo, hfirst, hhigh, hlow, hvalue, Char.ofNat_toNat]
  rfl

/-- One character is read back, whichever way it is written. -/
theorem scanChars_escapeChar (c : Char) (cs : List Char) :
    scanChars (escapeChar c ++ cs) = (scanChars cs).map fun p => (c :: p.1, p.2) := by
  unfold escapeChar
  cases hlookup : shortEscapes.lookup c with
  | some letter =>
    obtain ⟨hletter, hshort⟩ := shortEscape_of_lookup hlookup
    simp only [List.cons_append, List.nil_append]
    rw [scanChars.eq_def]
    simp [hletter, hshort]
  | none =>
    have hplain : ∀ p ∈ shortEscapes, c ≠ p.1 := by
      intro p hp
      have hne := List.lookup_eq_none_iff.mp hlookup p hp
      simpa using hne
    simp only
    by_cases hprintable : 0x20 ≤ c.toNat ∧ c.toNat ≤ 0x7E
    · have hquote : c ≠ '"' := hplain ('"', '"') (by decide)
      have hbackslash : c ≠ '\\' := hplain ('\\', '\\') (by decide)
      have hcontrol : ¬ c.toNat < 0x20 := Nat.not_lt.mpr hprintable.1
      rw [if_pos hprintable, List.cons_append, List.nil_append, scanChars.eq_def]
      simp only [if_neg hquote, if_pos hbackslash, if_neg hcontrol]
    · rw [if_neg hprintable]
      by_cases hbmp : c.toNat < 0x10000
      · rw [if_pos hbmp]
        exact scanChars_unit hbmp cs
      · obtain ⟨m, hm⟩ : ∃ m, c.toNat = 0x10000 + m := Nat.exists_eq_add_of_le (Nat.le_of_not_lt hbmp)
        rw [if_neg hbmp, hm, Nat.add_sub_cancel_left]
        exact scanChars_pair hm cs

/-- **A string is read back up to its closing quote.** -/
theorem scanChars_escaped (cs rest : List Char) :
    scanChars (cs.flatMap escapeChar ++ '"' :: rest) = some (cs, rest) := by
  induction cs with
  | nil =>
    rw [List.flatMap_nil, List.nil_append, scanChars.eq_def]
    rfl
  | cons c cs ih => rw [List.flatMap_cons, List.append_assoc, scanChars_escapeChar, ih, Option.map_some]

/-! ## Numbers -/

/-- No number runs on into the text. -/
def Ends (rest : List Char) : Prop :=
  ∀ c ∈ rest.head?, c.isDigit = false ∧ c ≠ '.' ∧ c ≠ 'e' ∧ c ≠ 'E'

/-- The decimal digits of a positive number start with none of zero. -/
theorem head_toDigits {n : Nat} (hn : n ≠ 0) : (Nat.toDigits 10 n).head? ≠ some '0' := by
  induction n using Nat.strong_induction_on with
  | _ n ih =>
    by_cases hlt : n < 10
    · rw [Nat.toDigits_of_lt_base hlt]
      have hall : ∀ m < 10, m ≠ 0 → [m.digitChar].head? ≠ some '0' := by decide
      exact hall n hlt hn
    · rw [Nat.toDigits_of_base_le (by omega) (by omega), List.head?_append_of_ne_nil _ Nat.toDigits_ne_nil]
      exact ih (n / 10) (by omega) (by omega)

/-- A number without fraction and exponent is an integer. -/
theorem numberValue_of_ends {rest : List Char} (h : Ends rest) (negative : Bool) (digits : List Char) :
    numberValue negative digits rest
      = (.int (if negative then -(Nat.ofDigitChars 10 digits 0 : Int) else Nat.ofDigitChars 10 digits 0),
        rest) := by
  have hfraction : fraction rest = ([], rest) := by
    cases rest with
    | nil => rfl
    | cons c rest =>
      have hc := h c rfl
      simp [fraction, hc.2.1]
  have hexponent : exponent rest = ([], rest) := by
    cases rest with
    | nil => rfl
    | cons c rest =>
      have hc := h c rfl
      simp [exponent, hc.2.2.1, hc.2.2.2]
  simp only [numberValue, hfraction, hexponent, and_self, if_true]

/-- Decimal digits are read as their number. -/
theorem matchDigits_toDigits {rest : List Char} (h : Ends rest) (negative : Bool) (n : Nat) :
    matchDigits negative (Nat.toDigits 10 n ++ rest)
      = some (.int (if negative then -(n : Int) else n), rest) := by
  have hall : ∀ c ∈ Nat.toDigits 10 n, c.isDigit := fun c hc =>
    Nat.isDigit_of_mem_toDigits (by omega) (by omega) hc
  have hvalue : Nat.ofDigitChars 10 (Nat.toDigits 10 n) 0 = n := Nat.ofDigitChars_ten_toDigits
  have hstop : rest.takeWhile Char.isDigit = [] ∧ rest.dropWhile Char.isDigit = rest := by
    cases rest with
    | nil => exact ⟨rfl, rfl⟩
    | cons c rest =>
      have hc := (h c rfl).1
      simp [hc]
  by_cases hzero : n = 0
  · subst hzero
    rw [Nat.toDigits_zero, List.cons_append, List.nil_append, matchDigits, if_pos rfl,
      numberValue_of_ends h]
    rfl
  · have hhead := head_toDigits hzero
    have hne : Nat.toDigits 10 n ≠ [] := Nat.toDigits_ne_nil
    cases hdigits : Nat.toDigits 10 n with
    | nil => exact absurd hdigits hne
    | cons d ds =>
      rw [hdigits] at hall hvalue hhead
      have hd : d ≠ '0' := fun heq => hhead (congrArg some heq)
      have htake : (d :: (ds ++ rest)).takeWhile Char.isDigit = d :: ds := by
        rw [← List.cons_append, List.takeWhile_append_of_pos hall, hstop.1, List.append_nil]
      have hdrop : (d :: (ds ++ rest)).dropWhile Char.isDigit = rest := by
        rw [← List.cons_append, List.dropWhile_append_of_pos hall, hstop.2]
      rw [List.cons_append, matchDigits, if_neg hd, if_pos (hall d List.mem_cons_self), htake, hdrop,
        numberValue_of_ends h, hvalue]

/-- An integer is read back from its text. -/
theorem scalar_intText {rest : List Char} (h : Ends rest) (n : Int) :
    scalar (intText n ++ rest) = some (.int n, rest) := by
  have hall : ∀ c ∈ Nat.toDigits 10 n.natAbs, c.isDigit := fun c hc =>
    Nat.isDigit_of_mem_toDigits (by omega) (by omega) hc
  have hmatch := fun negative => matchDigits_toDigits h negative n.natAbs
  have hne : Nat.toDigits 10 n.natAbs ≠ [] := Nat.toDigits_ne_nil
  cases hdigits : Nat.toDigits 10 n.natAbs with
  | nil => exact absurd hdigits hne
  | cons d ds =>
    rw [hdigits] at hall hmatch
    have hd := hall d List.mem_cons_self
    -- no word that is a value starts with a digit, or with a minus and a digit
    have hword : ∀ c, c.isDigit = false → (d == c) = false := by
      intro c hc
      rw [beq_eq_false_iff_ne]
      rintro rfl
      exact absurd (hc.symm.trans hd) (by decide)
    have hn := hword 'n' (by decide)
    have ht := hword 't' (by decide)
    have hf := hword 'f' (by decide)
    have hN := hword 'N' (by decide)
    have hI := hword 'I' (by decide)
    have hminus := hword '-' (by decide)
    by_cases hneg : n < 0
    · have hnone : literals.findSome? (fun word =>
          (('-' :: d :: (ds ++ rest)).dropPrefix? word.1).map fun rest => (word.2, rest)) = none := by
        simp [literals, List.dropPrefix?, hI]
      have hvalue : -(n.natAbs : Int) = n := by omega
      rw [intText, if_pos hneg, hdigits, List.cons_append, List.cons_append, scalar, hnone]
      simp only [matchNumber, if_true]
      rw [← List.cons_append, hmatch true, if_pos rfl, hvalue]
    · have hnone : literals.findSome? (fun word =>
          ((d :: (ds ++ rest)).dropPrefix? word.1).map fun rest => (word.2, rest)) = none := by
        simp [literals, List.dropPrefix?, hn, ht, hf, hN, hI, hminus]
      have hvalue : (n.natAbs : Int) = n := by omega
      rw [intText, if_neg hneg, hdigits, List.cons_append, scalar, hnone]
      simp only [matchNumber, if_neg (ne_of_beq_false hminus)]
      rw [← List.cons_append, hmatch false]
      simp [hvalue]

/-! ## Blocks -/

/-- A line break and its indentation are skipped. -/
theorem skipBlanks_newline (level : Nat) (cs : List Char) :
    skipBlanks (newline level ++ cs) = skipBlanks cs := by
  have hall : ∀ c ∈ newline level, isBlank c := by
    intro c hc
    rcases List.mem_cons.mp hc with rfl | hc
    · rfl
    · rw [List.eq_of_mem_replicate hc]
      rfl
  exact List.dropWhile_append_of_pos hall

/-- Nothing is skipped in front of a token, -/
theorem skipBlanks_of_not {c : Char} (h : isBlank c = false) (cs : List Char) :
    skipBlanks (c :: cs) = c :: cs :=
  List.dropWhile_cons_of_neg (by rw [h]; exact Bool.false_ne_true)

/-- The text starts with a token that is no closing bracket. -/
def Solid (text : List Char) : Prop :=
  ∃ c cs, text = c :: cs ∧ isBlank c = false ∧ c ≠ ']' ∧ c ≠ '}'

section

variable {α : Type} {element : List Char → Option (α × List Char)} {bound fuel : Nat}

/-- In every text of at most `bound` characters that starts with it, the text is read as the element. -/
def Reads (element : List Char → Option (α × List Char)) (bound : Nat) (text : List Char) (a : α) : Prop :=
  ∀ rest, (text ++ rest).length ≤ bound → Ends rest → element (text ++ rest) = some (a, rest)

/-- The brackets that close a block. -/
def IsClosing (c : Char) : Prop := c = ']' ∨ c = '}'

/-- such as a closing bracket, -/
theorem IsClosing.not_blank {c : Char} (h : IsClosing c) : isBlank c = false := by
  rcases h with rfl | rfl
  · rfl
  · rfl

/-- or what a value starts with. -/
theorem Solid.skipBlanks {text : List Char} (h : Solid text) (rest : List Char) :
    skipBlanks (text ++ rest) = text ++ rest := by
  obtain ⟨c, cs, rfl, hblank, -⟩ := h
  exact skipBlanks_of_not hblank (cs ++ rest)

/-- Texts with anything between them start as the first does. -/
theorem solid_intercalate (sep : List Char) {texts : List (List Char)} (hne : texts ≠ [])
    (h : ∀ text ∈ texts, Solid text) : Solid (sep.intercalate texts) := by
  cases texts with
  | nil => exact absurd rfl hne
  | cons text texts =>
    obtain ⟨c, cs, rfl, hc⟩ := h text List.mem_cons_self
    cases texts with
    | nil => exact ⟨c, cs, List.intercalate_singleton, hc⟩
    | cons next texts =>
      refine ⟨c, cs ++ sep ++ sep.intercalate (next :: texts), ?_, hc⟩
      rw [List.intercalate_cons_cons]
      rfl

/-- No number runs on into a line break, -/
theorem ends_newline (level : Nat) (cs : List Char) : Ends (newline level ++ cs) := by
  intro c hc
  cases hc
  decide

/-- or into a comma. -/
theorem ends_comma (cs : List Char) : Ends (',' :: cs) := by
  intro c hc
  cases hc
  decide

/-- The elements of a block are read in their order. -/
theorem parseSeparated_texts {closing : Char} {texts : List (List Char)} {as : List α} {level level' : Nat}
    {rest : List Char} (hclosing : IsClosing closing) (hsolid : ∀ text ∈ texts, Solid text)
    (hreads : List.Forall₂ (Reads element bound) texts as) (hne : texts ≠ [])
    (hfuel : texts.length ≤ fuel)
    (hbound : ((',' :: newline level).intercalate texts
      ++ (newline level' ++ closing :: rest)).length ≤ bound) :
    parseSeparated closing element fuel
      ((',' :: newline level).intercalate texts ++ (newline level' ++ closing :: rest)) = some (as, rest) := by
  induction hreads generalizing fuel with
  | nil => exact absurd rfl hne
  | @cons text a texts as hreads hrest ih =>
    cases fuel with
    | zero => exact absurd hfuel (Nat.not_succ_le_zero _)
    | succ fuel =>
      have hcomma : ',' ≠ closing := by
        rcases hclosing with rfl | rfl
        · decide
        · decide
      rw [parseSeparated]
      by_cases htexts : texts = []
      · subst htexts
        cases hrest
        rw [List.intercalate_singleton] at hbound ⊢
        simp only [hreads _ hbound (ends_newline _ _), Option.bind_eq_bind, Option.bind_some,
          skipBlanks_newline, skipBlanks_of_not hclosing.not_blank, if_true]
      · rw [List.intercalate_cons_of_ne_nil htexts, List.append_assoc, List.append_assoc,
          List.cons_append] at hbound ⊢
        have hsolids := (List.forall_mem_cons.mp hsolid).2
        have hskip := (solid_intercalate (',' :: newline level) htexts hsolids).skipBlanks
        have hloop : parseSeparated closing element fuel ((',' :: newline level).intercalate texts
            ++ (newline level' ++ closing :: rest)) = some (as, rest) := by
          apply ih hsolids htexts (Nat.le_of_succ_le_succ hfuel)
          simp only [List.length_append, List.length_cons] at hbound ⊢
          omega
        rw [hreads _ hbound (ends_comma _)]
        simp only [Option.bind_eq_bind, Option.bind_some]
        rw [skipBlanks_of_not (by rfl)]
        simp only [if_neg hcomma, if_true, skipBlanks_newline, hskip, hloop, Option.map_some]

/-- There are no more items than characters. -/
theorem length_le_length_intercalate (sep : List Char) {texts : List (List Char)}
    (hsolid : ∀ text ∈ texts, Solid text) : texts.length ≤ (sep.intercalate texts).length := by
  induction texts with
  | nil => exact Nat.zero_le _
  | cons text texts ih =>
    obtain ⟨⟨c, cs, rfl, -⟩, hsolids⟩ := List.forall_mem_cons.mp hsolid
    have hle := ih hsolids
    by_cases htexts : texts = []
    · subst htexts
      rw [List.intercalate_singleton]
      exact Nat.succ_le_succ (Nat.zero_le _)
    · rw [List.intercalate_cons_of_ne_nil htexts]
      simp only [List.length_append, List.length_cons]
      omega

/-- A block is read up to its closing bracket. -/
theorem parseBlock_block {closing : Char} {texts : List (List Char)} {as : List α} {level : Nat}
    {rest : List Char} (hclosing : IsClosing closing) (hsolid : ∀ text ∈ texts, Solid text)
    (hreads : List.Forall₂ (Reads element bound) texts as)
    (hbound : (block level closing texts ++ rest).length ≤ bound) :
    parseBlock closing element bound (block level closing texts ++ rest) = some (as, rest) := by
  by_cases hne : texts = []
  · subst hne
    cases hreads
    rw [block, if_pos rfl, List.cons_append, List.nil_append, parseBlock,
      skipBlanks_of_not hclosing.not_blank]
    exact if_pos rfl
  · rw [block, if_neg hne, List.append_assoc, List.append_assoc, List.append_assoc, List.cons_append,
      List.nil_append] at hbound ⊢
    have hbound : ((',' :: newline (level + 1)).intercalate texts
        ++ (newline level ++ closing :: rest)).length ≤ bound := by
      rw [List.length_append] at hbound
      omega
    have hfuel : texts.length ≤ bound := by
      have hle := length_le_length_intercalate (',' :: newline (level + 1)) hsolid
      rw [List.length_append] at hbound
      omega
    have hloop : parseSeparated closing element bound ((',' :: newline (level + 1)).intercalate texts
        ++ (newline level ++ closing :: rest)) = some (as, rest) :=
      parseSeparated_texts hclosing hsolid hreads hne hfuel hbound
    obtain ⟨c, cs, hcs, hblank, hbracket⟩ := solid_intercalate (',' :: newline (level + 1)) hne hsolid
    have hc : c ≠ closing := by
      rcases hclosing with rfl | rfl
      · exact hbracket.1
      · exact hbracket.2
    rw [parseBlock, skipBlanks_newline]
    rw [hcs, List.cons_append] at hloop ⊢
    rw [skipBlanks_of_not hblank]
    simp only [if_neg hc]
    exact hloop

end

/-- A key, a colon and a value are read as a field. -/
theorem reads_field {value : List Char → Option (Value × List Char)} {bound : Nat} {text : List Char} {v : Value}
    (key : String) (hsolid : Solid text) (hreads : Reads value bound text v) :
    Reads (parseField value) bound (quote key ++ (':' :: ' ' :: text)) (key, v) := by
  intro rest hbound hends
  have hlen : (text ++ rest).length ≤ bound := by
    simp only [quote, List.length_append, List.length_cons, List.cons_append] at hbound ⊢
    omega
  have hskip : skipBlanks (' ' :: (text ++ rest)) = text ++ rest := by
    rw [skipBlanks, List.dropWhile_cons_of_pos (by rfl)]
    exact hsolid.skipBlanks rest
  rw [quote, List.append_assoc, List.cons_append, List.append_assoc, List.cons_append, List.cons_append,
    List.nil_append, List.cons_append, parseField]
  simp only [scanChars_escaped, ne_eq, not_true, if_false, Option.bind_eq_bind, Option.bind_some]
  rw [skipBlanks_of_not (by rfl)]
  simp only [if_true, hskip, hreads rest hlen hends, Option.map_some, String.ofList_toList]

/-! ## Documents -/

/-- No floats, and no key twice in an object. -/
inductive Plain : Value → Prop
  | null : Plain .null
  | bool (b : Bool) : Plain (.bool b)
  | int (n : Int) : Plain (.int n)
  | str (s : String) : Plain (.str s)
  | arr (items : List Value) (hitems : ∀ v ∈ items, Plain v) : Plain (.arr items)
  | obj (fields : List (String × Value)) (hfields : ∀ kv ∈ fields, Plain kv.2)
    (hkeys : (Dict.keys fields).Nodup) : Plain (.obj fields)

/-- A new key is appended. -/
theorem set_of_not_mem {d : Dict String Value} {key : String} (h : key ∉ d.keys) (v : Value) :
    d.set key v = d ++ [(key, v)] := by
  induction d with
  | nil => rfl
  | cons kv d ih =>
    rw [Dict.keys, List.map_cons, List.mem_cons, not_or] at h
    have hne : ¬ (kv.1 == key) = true := fun heq => h.1 (eq_of_beq heq).symm
    rw [Dict.set, if_neg hne, ih h.2, List.cons_append]

/-- Distinct keys keep their order. -/
theorem dictOf_of_nodup {fields : List (String × Value)} (h : (Dict.keys fields).Nodup) :
    dictOf fields = fields := by
  suffices hgen : ∀ d : Dict String Value, (Dict.keys (d ++ fields)).Nodup →
      fields.foldl (fun d kv => d.set kv.1 kv.2) d = d ++ fields by
    exact hgen [] h
  clear h
  induction fields with
  | nil => exact fun d _ => (List.append_nil d).symm
  | cons kv fields ih =>
    intro d hd
    have hnot : kv.1 ∉ d.keys := by
      rw [Dict.keys, List.map_append, List.map_cons] at hd
      exact fun hmem => (List.nodup_append.mp hd).2.2 _ hmem _ List.mem_cons_self rfl
    have hsplit : d ++ kv :: fields = d ++ [kv] ++ fields := (List.append_cons d kv fields)
    rw [List.foldl_cons, set_of_not_mem hnot, hsplit]
    apply ih
    rw [← hsplit]
    exact hd

/-- A string starts with its quote, -/
theorem solid_quote (s : String) (rest : List Char) : Solid (quote s ++ rest) :=
  ⟨'"', _, rfl, by decide⟩

/-- An integer starts with a minus or a digit. -/
theorem intText_eq_cons (n : Int) : ∃ c cs, intText n = c :: cs ∧ (c = '-' ∨ c.isDigit) := by
  have hall : ∀ c ∈ Nat.toDigits 10 n.natAbs, c.isDigit := fun c hc =>
    Nat.isDigit_of_mem_toDigits (by omega) (by omega) hc
  have hne : Nat.toDigits 10 n.natAbs ≠ [] := Nat.toDigits_ne_nil
  unfold intText
  split
  · exact ⟨'-', _, rfl, Or.inl rfl⟩
  · cases hdigits : Nat.toDigits 10 n.natAbs with
    | nil => exact absurd hdigits hne
    | cons d ds =>
      rw [hdigits] at hall
      exact ⟨d, ds, rfl, Or.inr (hall d List.mem_cons_self)⟩

/-- an integer with a digit or its sign, -/
theorem solid_intText (n : Int) : Solid (intText n) := by
  obtain ⟨c, cs, hcs, hc⟩ := intText_eq_cons n
  refine ⟨c, cs, hcs, ?_, ?_, ?_⟩
  · by_contra hblank
    simp only [isBlank, Bool.not_eq_false, Bool.or_eq_true, beq_iff_eq] at hblank
    rcases hblank with ((rfl | rfl) | rfl) | rfl
    all_goals exact absurd hc (by decide)
  · rintro rfl
    exact absurd hc (by decide)
  · rintro rfl
    exact absurd hc (by decide)

/-- and every value with a token. -/
theorem solid_dumpsAt {v : Value} (h : Plain v) (level : Nat) : Solid (dumpsAt level v) := by
  cases h with
  | null => exact ⟨'n', _, rfl, by decide⟩
  | bool b =>
    cases b with
    | false => exact ⟨'f', _, rfl, by decide⟩
    | true => exact ⟨'t', _, rfl, by decide⟩
  | int n =>
    rw [dumpsAt]
    exact solid_intText n
  | str s =>
    have hquote := solid_quote s []
    rw [List.append_nil] at hquote
    rwa [dumpsAt]
  | arr items => exact ⟨'[', _, by rw [dumpsAt], by decide⟩
  | obj fields => exact ⟨'{', _, by rw [dumpsAt], by decide⟩

/-! ### One kind of value at a time -/

/-- A value takes one unit of the bound on the recursion, and has a character for it. -/
theorem reads_of_succ {c : Char} {cs : List Char} {v : Value}
    (h : ∀ fuel rest, (cs ++ rest).length ≤ fuel → Ends rest →
      parseValue (fuel + 1) (c :: (cs ++ rest)) = some (v, rest)) (fuel : Nat) :
    Reads (parseValue fuel) fuel (c :: cs) v := by
  intro rest hbound hends
  cases fuel with
  | zero => exact absurd hbound (Nat.not_succ_le_zero _)
  | succ fuel => exact h fuel rest (Nat.le_of_succ_le_succ hbound) hends

/-- An integer is read as a value, -/
theorem reads_int (n : Int) (fuel : Nat) : Reads (parseValue fuel) fuel (intText n) (.int n) := by
  obtain ⟨c, cs, hcs, hc⟩ := intText_eq_cons n
  have hhead : c ≠ '"' ∧ c ≠ '[' ∧ c ≠ '{' := by
    refine ⟨?_, ?_, ?_⟩
    all_goals
      rintro rfl
      exact absurd hc (by decide)
  rw [hcs]
  refine reads_of_succ (fun fuel rest _ hends => ?_) fuel
  have hscalar := scalar_intText hends n
  rw [hcs, List.cons_append] at hscalar
  rw [parseValue]
  simp only [if_neg hhead.1, if_neg hhead.2.1, if_neg hhead.2.2]
  exact hscalar

/-- and so is a string. -/
theorem reads_str (s : String) (fuel : Nat) : Reads (parseValue fuel) fuel (quote s) (.str s) := by
  rw [quote]
  refine reads_of_succ (fun fuel rest _ _ => ?_) fuel
  rw [parseValue]
  simp only [if_true]
  rw [List.append_assoc, List.cons_append, List.nil_append, scanChars_escaped, Option.map_some,
    String.ofList_toList]

/-- An array is read back, if its items are. -/
theorem reads_arr {items : List Value} (level : Nat)
    (hsolid : ∀ v ∈ items, Solid (dumpsAt (level + 1) v))
    (hreads : ∀ v ∈ items, ∀ fuel, Reads (parseValue fuel) fuel (dumpsAt (level + 1) v) v) (fuel : Nat) :
    Reads (parseValue fuel) fuel (dumpsAt level (.arr items)) (.arr items) := by
  rw [dumpsAt, itemTexts_eq_map]
  refine reads_of_succ (fun fuel rest hbound _ => ?_) fuel
  have hitems : List.Forall₂ (Reads (parseValue fuel) fuel) (items.map (dumpsAt (level + 1))) items := by
    rw [List.forall₂_map_left_iff, List.forall₂_same]
    exact fun v hv => hreads v hv fuel
  have hblock := parseBlock_block (Or.inl rfl) (List.forall_mem_map.mpr hsolid) hitems hbound
  rw [parseValue]
  simp only [Char.reduceEq, if_false, if_true, hblock, Option.map_some]

/-- An object is read back, if its values are and no key stands in it twice. -/
theorem reads_obj {fields : List (String × Value)} (level : Nat) (hkeys : (Dict.keys fields).Nodup)
    (hsolid : ∀ kv ∈ fields, Solid (dumpsAt (level + 1) kv.2))
    (hreads : ∀ kv ∈ fields, ∀ fuel, Reads (parseValue fuel) fuel (dumpsAt (level + 1) kv.2) kv.2) (fuel : Nat) :
    Reads (parseValue fuel) fuel (dumpsAt level (.obj fields)) (.obj fields) := by
  rw [dumpsAt, fieldTexts_eq_map]
  refine reads_of_succ (fun fuel rest hbound _ => ?_) fuel
  have htexts : ∀ kv ∈ fields, Solid (quote kv.1 ++ (':' :: ' ' :: dumpsAt (level + 1) kv.2)) :=
    fun kv _ => solid_quote kv.1 _
  have hfields : List.Forall₂ (Reads (parseField (parseValue fuel)) fuel)
      (fields.map fun kv => quote kv.1 ++ (':' :: ' ' :: dumpsAt (level + 1) kv.2)) fields := by
    rw [List.forall₂_map_left_iff, List.forall₂_same]
    exact fun kv hkv => reads_field kv.1 (hsolid kv hkv) (hreads kv hkv fuel)
  have hblock := parseBlock_block (Or.inr rfl) (List.forall_mem_map.mpr htexts) hfields hbound
  rw [parseValue]
  simp only [Char.reduceEq, if_false, if_true, hblock, Option.map_some, dictOf_of_nodup hkeys]

/-- **A plain document is read back**, inside any text that no number runs into. -/
theorem parseValue_dumpsAt {v : Value} (h : Plain v) (level fuel : Nat) :
    Reads (parseValue fuel) fuel (dumpsAt level v) v := by
  induction h generalizing level fuel with
  | null =>
    rw [dumpsAt]
    exact reads_of_succ (fun fuel rest _ _ => by simp [parseValue, scalar, literals, List.dropPrefix?]) fuel
  | bool b =>
    cases b
    all_goals
      rw [dumpsAt]
      exact reads_of_succ (fun fuel rest _ _ => by simp [parseValue, scalar, literals, List.dropPrefix?]) fuel
  | int n =>
    rw [dumpsAt]
    exact reads_int n fuel
  | str s =>
    rw [dumpsAt]
    exact reads_str s fuel
  | arr items hitems ih =>
    have hsolid : ∀ v ∈ items, Solid (dumpsAt (level + 1) v) := fun v hv => solid_dumpsAt (hitems v hv) _
    exact reads_arr level hsolid (fun v hv => ih v hv (level + 1)) fuel
  | obj fields hfields hkeys ih =>
    have hsolid : ∀ kv ∈ fields, Solid (dumpsAt (level + 1) kv.2) := fun kv hkv => solid_dumpsAt (hfields kv hkv) _
    exact reads_obj level hkeys hsolid (fun kv hkv => ih kv hkv (level + 1)) fuel

/-! ## ASCII -/

/-- A printable character of ASCII, or a line break. -/
def Printable (c : Char) : Prop := c = '\n' ∨ 0x20 ≤ c.toNat ∧ c.toNat ≤ 0x7E

instance : DecidablePred Printable := fun c => by unfold Printable; infer_instance

/-- Digits are printable. -/
theorem printable_of_isDigit {c : Char} (h : c.isDigit) : Printable c := by
  simp only [Char.isDigit, Bool.and_eq_true, decide_eq_true_eq] at h
  have hle : 48 ≤ c.toNat := h.1
  have hge : c.toNat ≤ 57 := h.2
  exact Or.inr ⟨by omega, by omega⟩

/-- So is the escape of a code unit, -/
theorem printable_escapeUnit (n : Nat) (hn : n < 0x10000) : ∀ c ∈ escapeUnit n, Printable c := by
  have hall : ∀ m < 16, Printable (hexDigit m) := by decide
  simp only [escapeUnit, List.forall_mem_cons]
  refine ⟨by decide, by decide, hall _ (by omega), hall _ (by omega), hall _ (by omega), hall _ (by omega), ?_⟩
  exact fun _ h => absurd h List.not_mem_nil

/-- that of a character, -/
theorem printable_escapeChar (c : Char) : ∀ c' ∈ escapeChar c, Printable c' := by
  have hscalar := toNat_scalar c
  unfold escapeChar
  cases hlookup : shortEscapes.lookup c with
  | some letter =>
    have hall : ∀ p ∈ shortEscapes, Printable p.2 := by
      simp only [shortEscapes, List.forall_mem_cons]
      decide
    obtain ⟨_, _, hmem, -⟩ := List.lookup_eq_some_iff.mp hlookup
    have hletter : Printable letter := by
      refine hall (c, letter) ?_
      rw [hmem]
      exact List.mem_append_right _ List.mem_cons_self
    simp only [List.forall_mem_cons]
    exact ⟨by decide, hletter, fun _ h => absurd h List.not_mem_nil⟩
  | none =>
    simp only
    by_cases hprintable : 0x20 ≤ c.toNat ∧ c.toNat ≤ 0x7E
    · rw [if_pos hprintable]
      exact List.forall_mem_singleton.mpr (Or.inr hprintable)
    · rw [if_neg hprintable]
      by_cases hbmp : c.toNat < 0x10000
      · rw [if_pos hbmp]
        exact printable_escapeUnit _ hbmp
      · rw [if_neg hbmp, List.forall_mem_append]
        exact ⟨printable_escapeUnit _ (by omega), printable_escapeUnit _ (by omega)⟩

/-- a string with its quotes, -/
theorem printable_quote (s : String) : ∀ c ∈ quote s, Printable c := by
  rw [quote, List.forall_mem_cons, List.forall_mem_append, List.forall_mem_flatMap]
  refine ⟨by decide, fun c _ => printable_escapeChar c, ?_⟩
  exact List.forall_mem_singleton.mpr (by decide)

/-- and a line break with its indentation. -/
theorem printable_newline (level : Nat) : ∀ c ∈ newline level, Printable c := by
  rw [newline, List.forall_mem_cons]
  refine ⟨by decide, fun c hc => ?_⟩
  rw [List.eq_of_mem_replicate hc]
  decide

/-- Printable texts with a printable separator in between. -/
theorem printable_intercalate {sep : List Char} {texts : List (List Char)} (hsep : ∀ c ∈ sep, Printable c)
    (h : ∀ text ∈ texts, ∀ c ∈ text, Printable c) : ∀ c ∈ sep.intercalate texts, Printable c := by
  induction texts with
  | nil => exact fun _ h => absurd h List.not_mem_nil
  | cons text texts ih =>
    obtain ⟨htext, htexts⟩ := List.forall_mem_cons.mp h
    by_cases hnil : texts = []
    · subst hnil
      rwa [List.intercalate_singleton]
    · rw [List.intercalate_cons_of_ne_nil hnil, List.forall_mem_append, List.forall_mem_append]
      exact ⟨⟨htext, hsep⟩, ih htexts⟩

/-- Printable items in brackets. -/
theorem printable_block (level : Nat) {closing : Char} {texts : List (List Char)} (hclosing : IsClosing closing)
    (h : ∀ text ∈ texts, ∀ c ∈ text, Printable c) : ∀ c ∈ block level closing texts, Printable c := by
  have hbracket : ∀ c ∈ [closing], Printable c := by
    rw [List.forall_mem_singleton]
    rcases hclosing with rfl | rfl
    · decide
    · decide
  have hsep : ∀ c ∈ ',' :: newline (level + 1), Printable c :=
    List.forall_mem_cons.mpr ⟨by decide, printable_newline (level + 1)⟩
  unfold block
  split
  · exact hbracket
  · rw [List.forall_mem_append, List.forall_mem_append, List.forall_mem_append]
    exact ⟨printable_newline _, printable_intercalate hsep h, printable_newline _, hbracket⟩

/-- **The text of a plain document is printable ASCII and line breaks**, whatever its strings. -/
theorem dumps_ascii {v : Value} (h : Plain v) (level : Nat) : ∀ c ∈ dumpsAt level v, Printable c := by
  induction h generalizing level with
  | null =>
    rw [dumpsAt]
    exact List.all_iff_forall_prop.mp (by decide)
  | bool b =>
    cases b
    all_goals
      rw [dumpsAt]
      exact List.all_iff_forall_prop.mp (by decide)
  | int n =>
    have hall : ∀ c ∈ Nat.toDigits 10 n.natAbs, Printable c := fun c hc =>
      printable_of_isDigit (Nat.isDigit_of_mem_toDigits (by omega) (by omega) hc)
    rw [dumpsAt]
    unfold intText
    split
    · exact List.forall_mem_cons.mpr ⟨by decide, hall⟩
    · exact hall
  | str s =>
    rw [dumpsAt]
    exact printable_quote s
  | arr items _ ih =>
    rw [dumpsAt, itemTexts_eq_map, List.forall_mem_cons]
    refine ⟨by decide, printable_block level (Or.inl rfl) ?_⟩
    rw [List.forall_mem_map]
    exact fun v hv => ih v hv (level + 1)
  | obj fields _ _ ih =>
    rw [dumpsAt, fieldTexts_eq_map, List.forall_mem_cons]
    refine ⟨by decide, printable_block level (Or.inr rfl) ?_⟩
    rw [List.forall_mem_map]
    intro kv hkv
    rw [List.forall_mem_append, List.forall_mem_cons, List.forall_mem_cons]
    exact ⟨printable_quote kv.1, by decide, by decide, ih kv hkv (level + 1)⟩

/-! ## Whole texts -/

/-- **What is written is read back**, with whitespace behind it or not. -/
theorem loads_dumps {v : Value} (h : Plain v) {rest : List Char} (hblank : ∀ c ∈ rest, isBlank c) :
    loads (dumps v ++ rest) = some v := by
  have hends : Ends rest := by
    intro c hc
    have hc := hblank c (List.mem_of_mem_head? hc)
    simp only [isBlank, Bool.or_eq_true, beq_iff_eq] at hc
    rcases hc with ((rfl | rfl) | rfl) | rfl
    all_goals decide
  have hskip : skipBlanks rest = [] := List.dropWhile_eq_nil_iff.mpr hblank
  have hsolid : Solid (dumps v) := solid_dumpsAt h 0
  have hread : parseValue (dumps v ++ rest).length (dumps v ++ rest) = some (v, rest) :=
    parseValue_dumpsAt h 0 _ rest (Nat.le_refl _) hends
  have hbom : (dumps v ++ rest).head? ≠ some (Char.ofNat 0xFEFF) := by
    obtain ⟨c, cs, hcs, -⟩ := hsolid
    have hc : Printable c := by
      apply dumps_ascii h 0
      rw [← dumps, hcs]
      exact List.mem_cons_self
    rw [hcs, List.cons_append, List.head?_cons]
    rintro ⟨⟩
    exact absurd hc (by decide)
  rw [loads_fuel _ _ (Nat.le_refl _), if_neg hbom, hsolid.skipBlanks, hread]
  exact if_pos hskip

end CvmMeasure.Json
