import CvmMeasure.Json.Value
import CvmMeasure.Python.Unicode

/-! # Reading JSON text

`json.loads`: the scanner of Python's `json` module over the characters of a text, `none` where it raises.
Every scanner returns what it read and the rest of the text.

* **`scanChars`**: a string, up to its closing quote;
* **`matchNumber`**: an integer, or a float, which is kept as its text;
* **`parseValue`**: any value; a value consumes text, so the number of characters bounds the recursion;
* **`loads`**: a whole text;
* **`loads_fuel`**: the bound is never what a text is refused for. -/

namespace CvmMeasure.Json

open Python

/-- The whitespace between tokens. -/
def isBlank (c : Char) : Bool := c == ' ' || c == '\t' || c == '\n' || c == '\r'

/-- The text behind its blanks. -/
def skipBlanks (cs : List Char) : List Char := cs.dropWhile isBlank

/-! ## Strings -/

/-- The code unit of four hexadecimal digits. -/
def unit? (a b c d : Char) : Option Nat := do
  let x₀ ← hexValue a
  let x₁ ← hexValue b
  let x₂ ← hexValue c
  let x₃ ← hexValue d
  pure (x₀ * 4096 + x₁ * 256 + x₂ * 16 + x₃)

/-- The character of a one-letter escape. -/
def shortEscape? (letter : Char) : Option Char :=
  if letter = '/' then some '/'
  else (shortEscapes.find? fun p => p.2 == letter).map Prod.fst

/-- A string, behind its opening quote. Python also reads a lone surrogate escape, into a string that no
`String` is; here the text is refused. -/
def scanChars : List Char → Option (List Char × List Char)
  | [] => none
  | c :: cs =>
    if c = '"' then some ([], cs)
    else if c ≠ '\\' then
      if c.toNat < 0x20 then none else (scanChars cs).map fun p => (c :: p.1, p.2)
    else
      match cs with
      | [] => none
      | letter :: cs =>
        if letter ≠ 'u' then
          match shortEscape? letter with
          | none => none
          | some c => (scanChars cs).map fun p => (c :: p.1, p.2)
        else
          match cs with
          | d₀ :: d₁ :: d₂ :: d₃ :: cs =>
            match unit? d₀ d₁ d₂ d₃ with
            | none => none
            | some n =>
              if isLowSurrogate n then none
              else if isHighSurrogate n = false then
                (scanChars cs).map fun p => (Char.ofNat n :: p.1, p.2)
              else
                match cs with
                | '\\' :: 'u' :: e₀ :: e₁ :: e₂ :: e₃ :: cs =>
                  match unit? e₀ e₁ e₂ e₃ with
                  | none => none
                  | some m =>
                    if isLowSurrogate m then
                      (scanChars cs).map fun p =>
                        (Char.ofNat (0x10000 + (n - 0xD800) * 0x400 + (m - 0xDC00)) :: p.1, p.2)
                    else none
                | _ => none
          | _ => none

/-! ## Numbers -/

/-- The fraction of a number, if there is one. -/
def fraction (cs : List Char) : List Char × List Char :=
  match cs with
  | [] => ([], [])
  | c :: rest =>
    let digits := rest.takeWhile Char.isDigit
    if c = '.' ∧ digits ≠ [] then ('.' :: digits, rest.dropWhile Char.isDigit) else ([], cs)

/-- The sign of an exponent. -/
def exponentSign (cs : List Char) : List Char × List Char :=
  match cs with
  | [] => ([], [])
  | c :: rest => if c = '+' ∨ c = '-' then ([c], rest) else ([], cs)

/-- The exponent of a number, if there is one. -/
def exponent (cs : List Char) : List Char × List Char :=
  match cs with
  | [] => ([], [])
  | c :: rest =>
    let (sign, behind) := exponentSign rest
    let digits := behind.takeWhile Char.isDigit
    if (c = 'e' ∨ c = 'E') ∧ digits ≠ [] then
      (c :: (sign ++ digits), behind.dropWhile Char.isDigit)
    else ([], cs)

/-- The value of a number: an integer, unless a fraction or an exponent follows the digits. -/
def numberValue (negative : Bool) (digits cs : List Char) : Value × List Char :=
  let (frac, behindFrac) := fraction cs
  let (exp, rest) := exponent behindFrac
  if frac = [] ∧ exp = [] then
    let n : Int := Nat.ofDigitChars 10 digits 0
    (.int (if negative then -n else n), rest)
  else (.float ((if negative then ['-'] else []) ++ digits ++ frac ++ exp), rest)

/-- The digits of a number without sign: a zero stands alone. -/
def matchDigits (negative : Bool) : List Char → Option (Value × List Char)
  | [] => none
  | c :: cs =>
    if c = '0' then some (numberValue negative ['0'] cs)
    else if c.isDigit then
      some (numberValue negative ((c :: cs).takeWhile Char.isDigit) ((c :: cs).dropWhile Char.isDigit))
    else none

/-- A number. -/
def matchNumber : List Char → Option (Value × List Char)
  | [] => none
  | c :: cs => if c = '-' then matchDigits true cs else matchDigits false (c :: cs)

/-! ## Values -/

/-- The words that are values. -/
def literals : List (List Char × Value) :=
  [("null".toList, .null), ("true".toList, .bool true), ("false".toList, .bool false),
    ("NaN".toList, .float "NaN".toList), ("Infinity".toList, .float "Infinity".toList),
    ("-Infinity".toList, .float "-Infinity".toList)]

/-- A word that is a value, or a number. -/
def scalar (cs : List Char) : Option (Value × List Char) :=
  match literals.findSome? fun word => (cs.dropPrefix? word.1).map fun rest => (word.2, rest) with
  | some p => some p
  | none => matchNumber cs

/-- Elements with commas between them, up to the closing bracket. -/
def parseSeparated {α : Type} (closing : Char) (element : List Char → Option (α × List Char)) :
    Nat → List Char → Option (List α × List Char)
  | 0, _ => none
  | fuel + 1, cs => do
    let (a, behind) ← element cs
    match skipBlanks behind with
    | [] => none
    | c :: rest =>
      if c = closing then some ([a], rest)
      else if c = ',' then
        (parseSeparated closing element fuel (skipBlanks rest)).map fun p => (a :: p.1, p.2)
      else none

/-- The elements of an array or an object, behind its opening bracket. -/
def parseBlock {α : Type} (closing : Char) (element : List Char → Option (α × List Char)) (fuel : Nat)
    (cs : List Char) : Option (List α × List Char) :=
  match skipBlanks cs with
  | [] => none
  | c :: rest => if c = closing then some ([], rest) else parseSeparated closing element fuel (c :: rest)

/-- A field: its key, a colon, and its value. -/
def parseField (value : List Char → Option (Value × List Char)) :
    List Char → Option ((String × Value) × List Char)
  | [] => none
  | c :: cs =>
    if c ≠ '"' then none
    else do
      let (key, behind) ← scanChars cs
      match skipBlanks behind with
      | [] => none
      | c :: rest =>
        if c = ':' then
          (value (skipBlanks rest)).map fun p => ((String.ofList key, p.1), p.2)
        else none

/-- The dictionary of some fields: a later value of a key replaces an earlier one. -/
def dictOf (fields : List (String × Value)) : Dict String Value :=
  fields.foldl (fun d kv => d.set kv.1 kv.2) []

/-- Any value. -/
def parseValue : Nat → List Char → Option (Value × List Char)
  | 0, _ => none
  | fuel + 1, cs =>
    match cs with
    | [] => none
    | c :: rest =>
      if c = '"' then (scanChars rest).map fun p => (.str (String.ofList p.1), p.2)
      else if c = '[' then
        (parseBlock ']' (parseValue fuel) fuel rest).map fun p => (.arr p.1, p.2)
      else if c = '{' then
        (parseBlock '}' (parseField (parseValue fuel)) fuel rest).map fun p => (.obj (dictOf p.1), p.2)
      else scalar cs

/-- `json.loads(text)`, `none` where it raises: a value with nothing but whitespace around it. -/
def loads (text : List Char) : Option Value :=
  if text.head? = some (Char.ofNat 0xFEFF) then none
  else
    match parseValue (text.length + 1) (skipBlanks text) with
    | none => none
    | some (v, rest) => if skipBlanks rest = [] then some v else none

example : (loads " \x7b\"a\": [1, -2.5e3, \"\\ud83d\\ude00\\u00e9\"], \"b\": null, \"a\": true\x7d".toList).map
    (fun v => String.ofList (dumps v)) = some "\x7b\n  \"a\": true,\n  \"b\": null\n\x7d" := by decide +kernel

/-! ## The bound on the recursion -/

section

variable {α β : Type} {x : Option (α × List Char)} {n m : Nat}

/-- Fewer than `n` characters are left behind what was read. -/
def Leaves (n : Nat) (x : Option (α × List Char)) : Prop :=
  ∀ a rest, x = some (a, rest) → rest.length < n

/-- The scanner consumes text. -/
def Shrinks (scan : List Char → Option (α × List Char)) : Prop := ∀ cs, Leaves cs.length (scan cs)

/-- A parser that fails leaves nothing. -/
theorem leaves_none (n : Nat) : Leaves n (none : Option (α × List Char)) := by
  intro a rest h
  cases h

/-- A parser that returns leaves what it has not read. -/
theorem leaves_some {a : α} {rest : List Char} (h : rest.length < n) : Leaves n (some (a, rest)) := by
  intro _ _ heq
  cases heq
  exact h

/-- What is left below a bound is left below a larger one. -/
theorem Leaves.mono (h : Leaves n x) (hle : n ≤ m) : Leaves m x :=
  fun a rest heq => (h a rest heq).trans_le hle

/-- What is made of the value read does not matter. -/
theorem Leaves.map (h : Leaves n x) (f : α → β) : Leaves n (x.map fun p => (f p.1, p.2)) := by
  intro b rest heq
  obtain ⟨⟨a, rest'⟩, hx, hp⟩ := Option.map_eq_some_iff.mp heq
  obtain ⟨-, rfl⟩ := Prod.mk.inj hp
  exact h a rest' hx

end

/-- Blanks are skipped, not added. -/
theorem length_skipBlanks_le (cs : List Char) : (skipBlanks cs).length ≤ cs.length :=
  (List.dropWhile_sublist _).length_le

/-- Reading the characters of a string uses up text. -/
theorem shrinks_scanChars : Shrinks scanChars := by
  intro cs
  fun_induction scanChars cs with
  | case2 => exact leaves_some (by simp)
  | case4 c cs _ _ _ ih => exact (ih.map (c :: ·)).mono (by simp)
  | case7 _ _ _ _ cs _ c _ ih => exact (ih.map (c :: ·)).mono (by simp only [List.length_cons]; omega)
  | case10 _ _ _ _ _ _ _ _ _ cs n _ _ _ ih =>
    exact (ih.map (Char.ofNat n :: ·)).mono (by simp only [List.length_cons]; omega)
  | case12 _ _ _ _ _ _ _ _ _ n _ _ _ _ _ _ _ cs m _ _ ih =>
    exact (ih.map (Char.ofNat (0x10000 + (n - 0xD800) * 0x400 + (m - 0xDC00)) :: ·)).mono
      (by simp only [List.length_cons]; omega)
  | _ => exact leaves_none _

/-- `dropWhile` leaves no more than there was. -/
theorem length_dropWhile_le {α : Type} (p : α → Bool) (l : List α) : (l.dropWhile p).length ≤ l.length :=
  (List.dropWhile_sublist p).length_le

/-- A fraction leaves no more than there was. -/
theorem length_fraction_le (cs : List Char) : (fraction cs).2.length ≤ cs.length := by
  unfold fraction
  cases cs with
  | nil => exact Nat.le_refl _
  | cons c rest =>
    simp only
    split
    · exact (length_dropWhile_le _ rest).trans (Nat.le_succ _)
    · exact Nat.le_refl _

/-- And so does the sign of an exponent, -/
theorem length_exponentSign_le (cs : List Char) : (exponentSign cs).2.length ≤ cs.length := by
  unfold exponentSign
  cases cs with
  | nil => exact Nat.le_refl _
  | cons c rest =>
    simp only
    split
    · exact Nat.le_succ _
    · exact Nat.le_refl _

/-- the exponent behind it, -/
theorem length_exponent_le (cs : List Char) : (exponent cs).2.length ≤ cs.length := by
  unfold exponent
  cases cs with
  | nil => exact Nat.le_refl _
  | cons c rest =>
    simp only
    split
    · exact ((length_dropWhile_le _ _).trans (length_exponentSign_le rest)).trans (Nat.le_succ _)
    · exact Nat.le_refl _

/-- and all that may follow the digits of a number. -/
theorem length_numberValue_le (negative : Bool) (digits cs : List Char) :
    (numberValue negative digits cs).2.length ≤ cs.length := by
  have hle := (length_exponent_le (fraction cs).2).trans (length_fraction_le cs)
  unfold numberValue
  simp only
  split
  · exact hle
  · exact hle

/-- The digits of a number use up text. -/
theorem shrinks_matchDigits (negative : Bool) : Shrinks (matchDigits negative) := by
  intro cs
  cases cs with
  | nil => exact leaves_none _
  | cons c cs =>
    rw [matchDigits]
    split
    · exact leaves_some (Nat.lt_succ_of_le (length_numberValue_le negative _ cs))
    · split
      · rename_i hdigit
        apply leaves_some
        rw [List.dropWhile_cons_of_pos hdigit, List.length_cons]
        exact Nat.lt_succ_of_le ((length_numberValue_le negative _ _).trans (length_dropWhile_le _ cs))
      · exact leaves_none _

/-- So does a number with its sign, -/
theorem shrinks_matchNumber : Shrinks matchNumber := by
  intro cs
  cases cs with
  | nil => exact leaves_none _
  | cons c cs =>
    rw [matchNumber]
    split
    · exact (shrinks_matchDigits true cs).mono (Nat.le_succ _)
    · exact shrinks_matchDigits false (c :: cs)

/-- and every value that is no array or object. -/
theorem shrinks_scalar : Shrinks scalar := by
  intro cs
  have hword : ∀ word ∈ literals, word.1 ≠ [] := by
    simp only [literals, List.forall_mem_cons]
    decide
  rw [scalar]
  split
  · rename_i p hfound
    obtain ⟨word, hmem, hp⟩ := List.exists_of_findSome?_eq_some hfound
    obtain ⟨rest, hrest, rfl⟩ := Option.map_eq_some_iff.mp hp
    apply leaves_some
    obtain ⟨key, hkey, hbeq⟩ := List.dropPrefix?_eq_some_iff.mp hrest
    have hlen := List.length_pos_iff.mpr (hword word hmem)
    obtain rfl := eq_of_beq hbeq
    rw [hkey, List.length_append]
    omega
  · exact shrinks_matchNumber cs

section

variable {α : Type} {element : List Char → Option (α × List Char)}

/-- Elements between commas use up text, if each of them does. -/
theorem shrinks_parseSeparated (helement : Shrinks element) (closing : Char) (fuel : Nat) :
    Shrinks (parseSeparated closing element fuel) := by
  induction fuel with
  | zero => exact fun cs => leaves_none _
  | succ fuel ih =>
    intro cs as rest h
    simp only [parseSeparated, Option.bind_eq_bind, Option.bind_eq_some_iff, Prod.exists] at h
    obtain ⟨a, behind, ha, h⟩ := h
    have hbehind := helement cs a behind ha
    have hblanks := length_skipBlanks_le behind
    cases hskip : skipBlanks behind with
    | nil =>
      rw [hskip] at h
      cases h
    | cons c tail =>
      rw [hskip] at h hblanks
      rw [List.length_cons] at hblanks
      simp only at h
      split at h
      · cases h
        omega
      · split at h
        · have hrest := ((ih (skipBlanks tail)).map (a :: ·)) as rest h
          have htail := length_skipBlanks_le tail
          omega
        · cases h

/-- So do elements in brackets, -/
theorem shrinks_parseBlock (helement : Shrinks element) (closing : Char) (fuel : Nat) :
    Shrinks (parseBlock closing element fuel) := by
  intro cs
  have hblanks := length_skipBlanks_le cs
  unfold parseBlock
  cases hskip : skipBlanks cs with
  | nil => exact leaves_none _
  | cons c rest =>
    rw [hskip] at hblanks
    simp only
    split
    · exact leaves_some hblanks
    · exact (shrinks_parseSeparated helement closing fuel (c :: rest)).mono hblanks

end

/-- and a field, if its value does. -/
theorem shrinks_parseField {value : List Char → Option (Value × List Char)} (hvalue : Shrinks value) :
    Shrinks (parseField value) := by
  intro cs kv rest h
  cases cs with
  | nil => cases h
  | cons c cs =>
    rw [parseField] at h
    split at h
    · cases h
    · simp only [Option.bind_eq_bind, Option.bind_eq_some_iff, Prod.exists] at h
      obtain ⟨key, behind, hkey, h⟩ := h
      have hbehind := shrinks_scanChars cs key behind hkey
      have hblanks := length_skipBlanks_le behind
      cases hskip : skipBlanks behind with
      | nil =>
        rw [hskip] at h
        cases h
      | cons c tail =>
        rw [hskip] at h hblanks
        rw [List.length_cons] at hblanks ⊢
        simp only at h
        split at h
        · have hrest := ((hvalue (skipBlanks tail)).map (String.ofList key, ·)) kv rest h
          have htail := length_skipBlanks_le tail
          omega
        · cases h

/-- A value consumes text, at any bound on the recursion. -/
theorem shrinks_parseValue (fuel : Nat) : Shrinks (parseValue fuel) := by
  induction fuel with
  | zero => exact fun cs => leaves_none _
  | succ fuel ih =>
    intro cs
    cases cs with
    | nil => exact leaves_none _
    | cons c rest =>
      have hitems := shrinks_parseBlock ih ']' fuel rest
      have hfields := shrinks_parseBlock (shrinks_parseField ih) '}' fuel rest
      rw [parseValue]
      split
      · exact ((shrinks_scanChars rest).map (Value.str ∘ String.ofList)).mono (Nat.le_succ _)
      · split
        · exact (hitems.map Value.arr).mono (Nat.le_succ _)
        · split
          · exact (hfields.map (Value.obj ∘ dictOf)).mono (Nat.le_succ _)
          · exact shrinks_scalar (c :: rest)

section

variable {α : Type} {element element' : List Char → Option (α × List Char)} {bound fuel fuel' : Nat}
  {cs : List Char}

/-- The scanners agree on every text of at most `bound` characters. -/
def AgreeUpTo (bound : Nat) (element element' : List Char → Option (α × List Char)) : Prop :=
  ∀ cs, cs.length ≤ bound → element cs = element' cs

/-- What uses up text has nothing to read at its end. -/
theorem Shrinks.nil (h : Shrinks element) : element [] = none := by
  apply Option.eq_none_iff_forall_ne_some.mpr
  rintro ⟨a, rest⟩ heq
  exact absurd (h [] a rest heq) (Nat.not_lt_zero _)

/-- The fuel does not matter to elements between commas, if it is enough for the text, nor does an element
parser that agrees on it. -/
theorem parseSeparated_congr (closing : Char) (helement : Shrinks element)
    (hagree : AgreeUpTo bound element element') (hcs : cs.length ≤ bound) (hfuel : cs.length ≤ fuel)
    (hfuel' : cs.length ≤ fuel') :
    parseSeparated closing element fuel cs = parseSeparated closing element' fuel' cs := by
  induction fuel generalizing fuel' cs with
  | zero =>
    obtain rfl := List.length_eq_zero_iff.mp (Nat.le_zero.mp hfuel)
    cases fuel' with
    | zero => rfl
    | succ fuel' =>
      simp only [parseSeparated]
      rw [← hagree [] hcs, helement.nil]
      rfl
  | succ fuel ih =>
    cases fuel' with
    | zero =>
      obtain rfl := List.length_eq_zero_iff.mp (Nat.le_zero.mp hfuel')
      simp only [parseSeparated]
      rw [helement.nil]
      rfl
    | succ fuel' =>
      simp only [parseSeparated]
      rw [← hagree cs hcs]
      cases ha : element cs with
      | none => rfl
      | some p =>
        have hbehind := helement cs p.1 p.2 ha
        have hblanks := length_skipBlanks_le p.2
        simp only [Option.bind_eq_bind, Option.bind_some]
        cases hskip : skipBlanks p.2 with
        | nil => rfl
        | cons c tail =>
          have htail := length_skipBlanks_le tail
          rw [hskip, List.length_cons] at hblanks
          have hloop : parseSeparated closing element fuel (skipBlanks tail)
              = parseSeparated closing element' fuel' (skipBlanks tail) := by
            apply ih
            all_goals omega
          simp only [hloop]

/-- The same for elements in brackets. -/
theorem parseBlock_congr (closing : Char) (helement : Shrinks element)
    (hagree : AgreeUpTo bound element element') (hcs : cs.length ≤ bound) (hfuel : cs.length ≤ fuel)
    (hfuel' : cs.length ≤ fuel') :
    parseBlock closing element fuel cs = parseBlock closing element' fuel' cs := by
  have hblanks := length_skipBlanks_le cs
  unfold parseBlock
  cases hskip : skipBlanks cs with
  | nil => rfl
  | cons c rest =>
    rw [hskip] at hblanks
    have hloop := parseSeparated_congr closing helement hagree (hblanks.trans hcs)
      (hblanks.trans hfuel) (hblanks.trans hfuel')
    simp only [hloop]

/-- Parsers that agree on values agree on fields. -/
theorem AgreeUpTo.parseField {value value' : List Char → Option (Value × List Char)}
    (hagree : AgreeUpTo bound value value') : AgreeUpTo bound (parseField value) (parseField value') := by
  intro cs hcs
  cases cs with
  | nil => rfl
  | cons c cs =>
    rw [Json.parseField, Json.parseField]
    cases hkey : scanChars cs with
    | none => rfl
    | some p =>
      have hbehind := shrinks_scanChars cs p.1 p.2 hkey
      have hblanks := length_skipBlanks_le p.2
      rw [List.length_cons] at hcs
      simp only [Option.bind_eq_bind, Option.bind_some]
      cases hskip : skipBlanks p.2 with
      | nil => rfl
      | cons c tail =>
        have htail := length_skipBlanks_le tail
        rw [hskip, List.length_cons] at hblanks
        simp only
        rw [hagree (skipBlanks tail) (by omega)]

end

/-- The bound on the recursion does not matter, once it is the length of the text. -/
theorem parseValue_fuel {fuel fuel' : Nat} {cs : List Char} (hfuel : cs.length ≤ fuel)
    (hfuel' : cs.length ≤ fuel') : parseValue fuel cs = parseValue fuel' cs := by
  induction fuel generalizing fuel' cs with
  | zero =>
    obtain rfl := List.length_eq_zero_iff.mp (Nat.le_zero.mp hfuel)
    exact (shrinks_parseValue fuel').nil.symm
  | succ fuel ih =>
    cases fuel' with
    | zero =>
      obtain rfl := List.length_eq_zero_iff.mp (Nat.le_zero.mp hfuel')
      rfl
    | succ fuel' =>
      cases cs with
      | nil => rfl
      | cons c rest =>
        have hfuel := Nat.le_of_succ_le_succ hfuel
        have hfuel' := Nat.le_of_succ_le_succ hfuel'
        have hagree : AgreeUpTo rest.length (parseValue fuel) (parseValue fuel') := by
          intro cs hcs
          exact ih (hcs.trans hfuel) (hcs.trans hfuel')
        have hitems := parseBlock_congr ']' (shrinks_parseValue fuel) hagree (Nat.le_refl _) hfuel hfuel'
        have hfields := parseBlock_congr '}' (shrinks_parseField (shrinks_parseValue fuel))
          hagree.parseField (Nat.le_refl _) hfuel hfuel'
        rw [parseValue, parseValue, hitems, hfields]

/-- A text is refused for what it says, never for the bound on the recursion. -/
theorem loads_fuel (text : List Char) (fuel : Nat) (hfuel : text.length ≤ fuel) :
    loads text = if text.head? = some (Char.ofNat 0xFEFF) then none
      else match parseValue fuel (skipBlanks text) with
        | none => none
        | some (v, rest) => if skipBlanks rest = [] then some v else none := by
  have hblanks := length_skipBlanks_le text
  rw [loads, parseValue_fuel (by omega : (skipBlanks text).length ≤ fuel)
    (by omega : (skipBlanks text).length ≤ text.length + 1)]

end CvmMeasure.Json
