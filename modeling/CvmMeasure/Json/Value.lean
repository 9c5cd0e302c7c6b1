import CvmMeasure.Python.Dict
import CvmMeasure.Python.Hex

/-! # JSON values and their text

`json.dumps(value, indent=2)`: two blanks for each level, and nothing but ASCII, so that characters past
it are written as escapes of their UTF-16 code units.

* **`Value`**: a document; an object is a dictionary in insertion order, and a float is its text;
* **`quote`**: a string as JSON text;
* **`dumps`**: a document as JSON text. -/

namespace CvmMeasure.Json

open Python

/-- A JSON document. -/
inductive Value where
  | null
  | bool (value : Bool)
  | int (value : Int)
  | float (text : List Char)
  | str (value : String)
  | arr (items : List Value)
  | obj (fields : List (String × Value))

/-! ## Strings -/

/-- `\uXXXX`: the escape of a UTF-16 code unit. -/
def escapeUnit (n : Nat) : List Char :=
  ['\\', 'u', hexDigit (n / 4096), hexDigit (n / 256 % 16), hexDigit (n / 16 % 16), hexDigit (n % 16)]

/-- The characters with an escape of their own, and its letter. -/
def shortEscapes : List (Char × Char) :=
  [('"', '"'), ('\\', '\\'), ('\n', 'n'), ('\r', 'r'), ('\t', 't'), (Char.ofNat 0x0C, 'f'),
    (Char.ofNat 0x08, 'b')]

/-- A character inside a string: printable ASCII as it is, anything else as an escape, and a character
past the Basic Multilingual Plane as that of its two surrogates. -/
def escapeChar (c : Char) : List Char :=
  let n := c.toNat
  match shortEscapes.lookup c with
  | some letter => ['\\', letter]
  | none =>
    if 0x20 ≤ n ∧ n ≤ 0x7E then [c]
    else if n < 0x10000 then escapeUnit n
    else escapeUnit (0xD800 + (n - 0x10000) / 0x400) ++ escapeUnit (0xDC00 + (n - 0x10000) % 0x400)

/-- A string as JSON text. -/
def quote (s : String) : List Char := '"' :: (s.toList.flatMap escapeChar ++ ['"'])

/-! ## Documents -/

/-- A line break, and the indentation of the next line. -/
def newline (level : Nat) : List Char := '\n' :: List.replicate (2 * level) ' '

/-- `int.__repr__`. -/
def intText (n : Int) : List Char :=
  if n < 0 then '-' :: Nat.toDigits 10 n.natAbs else Nat.toDigits 10 n.natAbs

/-- The texts of items or fields, one to a line, behind the opening bracket. -/
def block (level : Nat) (closing : Char) (texts : List (List Char)) : List Char :=
  if texts = [] then [closing]
  else
    newline (level + 1) ++ ((',' :: newline (level + 1)).intercalate texts ++ (newline level ++ [closing]))

mutual

/-- `json.dumps(value, indent=2)`, at a level of nesting. -/
def dumpsAt (level : Nat) : Value → List Char
  | .null => ['n', 'u', 'l', 'l']
  | .bool true => ['t', 'r', 'u', 'e']
  | .bool false => ['f', 'a', 'l', 's', 'e']
  | .int n => intText n
  | .float text => text
  | .str s => quote s
  | .arr items => '[' :: block level ']' (itemTexts (level + 1) items)
  | .obj fields => '{' :: block level '}' (fieldTexts (level + 1) fields)

/-- The texts of the items of an array. -/
def itemTexts (level : Nat) : List Value → List (List Char)
  | [] => []
  | v :: vs => dumpsAt level v :: itemTexts level vs

/-- The texts of the fields of an object. -/
def fieldTexts (level : Nat) : List (String × Value) → List (List Char)
  | [] => []
  | (key, v) :: kvs => (quote key ++ (':' :: ' ' :: dumpsAt level v)) :: fieldTexts level kvs

end

/-- The items of an array are written one by one. -/
theorem itemTexts_eq_map (level : Nat) (items : List Value) :
    itemTexts level items = items.map (dumpsAt level) := by
  induction items with
  | nil => rfl
  | cons v vs ih => rw [itemTexts, List.map_cons, ih]

/-- The fields of an object are written one by one, each behind its key. -/
theorem fieldTexts_eq_map (level : Nat) (fields : List (String × Value)) :
    fieldTexts level fields
      = fields.map fun kv => quote kv.1 ++ (':' :: ' ' :: dumpsAt level kv.2) := by
  induction fields with
  | nil => rfl
  | cons kv kvs ih => rw [fieldTexts, List.map_cons, ih]

/-- `json.dumps(value, indent=2)`. -/
def dumps (v : Value) : List Char := dumpsAt 0 v

example : String.ofList (dumps (.obj [("a", .int (-1)), ("b", .arr [.str "é\n", .bool true])]))
    = "\x7b\n  \"a\": -1,\n  \"b\": [\n    \"\\u00e9\\n\",\n    true\n  ]\n\x7d" := by decide +kernel

end CvmMeasure.Json
