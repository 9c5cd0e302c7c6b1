import CvmMeasure.Binary.LittleEndian
import CvmMeasure.Python.Lines
import Mathlib.Data.List.Nodup

/-! # TOML documents

The concrete syntax of TOML 1.0, rule by rule: a tree holds every byte of its document, and what a rule
allows is carried by the types. Numbers, dates and booleans are left as tokens, whose own grammar is not
needed. Rendering marks each byte with where it stands.

* **`Str`**, **`Key`**, **`Value`**: strings with their values, keys with their names, values;
* **`Value.render`**: the bytes of a value, marked as part of an array, an inline table or a multi-line
  string;
* **`Document`**: expressions line by line, with `Document.render` and the pairs of the root table. -/

namespace CvmMeasure.Toml

open Binary Python

/-! ## Bytes -/

/-- `wschar`. -/
def IsBlank (b : UInt8) : Prop := b = 0x20 ∨ b = 0x09

/-- `non-eol`: what a comment holds. -/
def IsNonEol (b : UInt8) : Prop := b = 0x09 ∨ 0x20 ≤ b

/-- `unquoted-key`: a letter, a digit, `-` or `_`. -/
def IsBareKey (b : UInt8) : Prop :=
  (0x41 ≤ b ∧ b ≤ 0x5A) ∨ (0x61 ≤ b ∧ b ≤ 0x7A) ∨ (0x30 ≤ b ∧ b ≤ 0x39) ∨ b = 0x2D ∨ b = 0x5F

/-- `basic-unescaped`: anything but controls, `"` and the backslash. -/
def IsBasicUnescaped (b : UInt8) : Prop :=
  IsBlank b ∨ b = 0x21 ∨ (0x23 ≤ b ∧ b ≤ 0x5B) ∨ (0x5D ≤ b ∧ b ≤ 0x7E) ∨ 0x80 ≤ b

/-- `literal-char`: anything but controls and the apostrophe. -/
def IsLiteralChar (b : UInt8) : Prop :=
  b = 0x09 ∨ (0x20 ≤ b ∧ b ≤ 0x26) ∨ (0x28 ≤ b ∧ b ≤ 0x7E) ∨ 0x80 ≤ b

/-- The letter of a one-letter escape: `b`, `t`, `n`, `f`, `r`, `"` or the backslash. -/
def IsEscapeLetter (b : UInt8) : Prop :=
  b = 0x62 ∨ b = 0x74 ∨ b = 0x6E ∨ b = 0x66 ∨ b = 0x72 ∨ b = 0x22 ∨ b = 0x5C

/-- `HEXDIG`, of either case. -/
def IsHexDigit (b : UInt8) : Prop :=
  (0x30 ≤ b ∧ b ≤ 0x39) ∨ (0x41 ≤ b ∧ b ≤ 0x46) ∨ (0x61 ≤ b ∧ b ≤ 0x66)

/-- What a boolean, a number or a date begins with: a digit, a sign, or the first letter of `true`,
`false`, `inf` or `nan`. -/
def IsScalarStart (b : UInt8) : Prop :=
  (0x30 ≤ b ∧ b ≤ 0x39) ∨ b = 0x2B ∨ b = 0x2D ∨ b = 0x74 ∨ b = 0x66 ∨ b = 0x69 ∨ b = 0x6E

/-- What it goes on with; the space stands between a date and its time. -/
def IsScalarByte (b : UInt8) : Prop := IsBareKey b ∨ b = 0x2B ∨ b = 0x2E ∨ b = 0x3A ∨ b = 0x20

instance : DecidablePred IsBlank := fun b => by unfold IsBlank; infer_instance
instance : DecidablePred IsNonEol := fun b => by unfold IsNonEol; infer_instance
instance : DecidablePred IsBareKey := fun b => by unfold IsBareKey; infer_instance
instance : DecidablePred IsBasicUnescaped := fun b => by unfold IsBasicUnescaped; infer_instance
instance : DecidablePred IsLiteralChar := fun b => by unfold IsLiteralChar; infer_instance
instance : DecidablePred IsEscapeLetter := fun b => by unfold IsEscapeLetter; infer_instance
instance : DecidablePred IsHexDigit := fun b => by unfold IsHexDigit; infer_instance
instance : DecidablePred IsScalarStart := fun b => by unfold IsScalarStart; infer_instance
instance : DecidablePred IsScalarByte := fun b => by unfold IsScalarByte; infer_instance

/-- Bytes of one kind. -/
abbrev Run (P : UInt8 → Prop) := List {b : UInt8 // P b}

/-- The bytes of a run. -/
def Run.bytes {P : UInt8 → Prop} (run : Run P) : Bytes := run.map Subtype.val

/-- `ws`. -/
abbrev Blanks := Run IsBlank

/-- `newline`. -/
inductive Newline where
  | lf
  | crlf
  deriving DecidableEq, Repr

/-- The bytes of a newline. -/
def Newline.bytes : Newline → Bytes
  | lf => [0x0A]
  | crlf => [0x0D, 0x0A]

/-- `[ comment ]`, without its `#`. -/
abbrev Comment := Option (Run IsNonEol)

/-- The bytes of a comment. -/
def Comment.bytes : Comment → Bytes
  | none => []
  | some text => 0x23 :: Run.bytes text

/-! ## Strings -/

/-- The number that hexadecimal digits spell. -/
def hexNat (digits : Run IsHexDigit) : Nat :=
  digits.foldl (fun n d =>
    n * 16 + (if d.val ≤ 0x39 then d.val.toNat - 0x30 else (d.val.toNat ||| 0x20) - 0x57)) 0

/-- `escaped`: a letter, or the code point of a Unicode scalar value in four or eight digits. -/
inductive Escape where
  | letter (b : {b : UInt8 // IsEscapeLetter b})
  | unicode (digits : Run IsHexDigit) (h : (digits.length = 4 ∨ digits.length = 8) ∧
      (hexNat digits).isValidChar)

/-- The bytes of an escape. -/
def Escape.bytes : Escape → Bytes
  | letter b => [0x5C, b.val]
  | unicode digits _ => 0x5C :: (if digits.length = 4 then 0x75 else 0x55) :: digits.bytes

/-- What an escape stands for. -/
def Escape.value : Escape → Bytes
  | letter b =>
    if b.val = 0x62 then [0x08] else if b.val = 0x74 then [0x09] else if b.val = 0x6E then [0x0A]
    else if b.val = 0x66 then [0x0C] else if b.val = 0x72 then [0x0D] else [b.val]
  | unicode digits _ => String.utf8EncodeChar (Char.ofNat (hexNat digits))

/-- `basic-char`. -/
inductive BasicChar where
  | plain (b : {b : UInt8 // IsBasicUnescaped b})
  | escape (e : Escape)

/-- The bytes of a character of a basic string. -/
def BasicChar.bytes : BasicChar → Bytes
  | plain b => [b.val]
  | escape e => e.bytes

/-- What a character of a basic string stands for. -/
def BasicChar.value : BasicChar → Bytes
  | plain b => [b.val]
  | escape e => e.value

/-- `mlb-content`: a character, a newline, or a backslash that joins two lines. -/
inductive MlbContent where
  | char (c : BasicChar)
  | newline (nl : Newline)
  | join (blanks : Blanks) (nl : Newline) (more : List ({b : UInt8 // IsBlank b} ⊕ Newline))

/-- The bytes of a part of a multi-line basic string. -/
def MlbContent.bytes : MlbContent → Bytes
  | char c => c.bytes
  | newline nl => nl.bytes
  | join blanks nl more =>
    0x5C :: blanks.bytes ++ nl.bytes ++ more.flatMap (Sum.elim (fun b => [b.val]) Newline.bytes)

/-- What a part of a multi-line basic string stands for. -/
def MlbContent.value : MlbContent → Bytes
  | char c => c.value
  | newline nl => nl.bytes
  | join _ _ _ => []

/-- `mll-content`: a literal character or a newline. -/
inductive MllContent where
  | char (b : {b : UInt8 // IsLiteralChar b})
  | newline (nl : Newline)

/-- The bytes of a part of a multi-line literal string, which stands for itself. -/
def MllContent.bytes : MllContent → Bytes
  | char b => [b.val]
  | newline nl => nl.bytes

/-- `ml-basic-body` and `ml-literal-body`: contents, among them one or two quotes in a row. -/
structure MlBody (α : Type) where
  start : List α
  /-- One quote or two, and the contents behind them. -/
  runs : List (Bool × α × List α)
  /-- One quote or two before the closing ones. -/
  stop : Option Bool

/-- The body with `f` of its contents. -/
def MlBody.spell {α : Type} (quote : UInt8) (f : α → Bytes) (body : MlBody α) : Bytes :=
  let quotes : Bool → Bytes := fun two => if two then [quote, quote] else [quote]
  body.start.flatMap f
    ++ (body.runs.flatMap fun run => quotes run.1 ++ f run.2.1 ++ run.2.2.flatMap f)
    ++ (body.stop.elim [] quotes)

/-- `string`. -/
inductive Str where
  | basic (chars : List BasicChar)
  | literal (chars : Run IsLiteralChar)
  | mlBasic (body : MlBody MlbContent)
  | mlLiteral (body : MlBody MllContent)

/-- The bytes of a string, its delimiters included. -/
def Str.bytes : Str → Bytes
  | basic chars => 0x22 :: chars.flatMap BasicChar.bytes ++ [0x22]
  | literal chars => 0x27 :: chars.bytes ++ [0x27]
  | mlBasic body => [0x22, 0x22, 0x22] ++ body.spell 0x22 MlbContent.bytes ++ [0x22, 0x22, 0x22]
  | mlLiteral body => [0x27, 0x27, 0x27] ++ body.spell 0x27 MllContent.bytes ++ [0x27, 0x27, 0x27]

/-- The value of a string. A newline right behind the opening quotes is dropped. -/
def Str.value : Str → Bytes
  | basic chars => chars.flatMap BasicChar.value
  | literal chars => chars.bytes
  | mlBasic body =>
    match body.start with
    | .newline _ :: start => { body with start }.spell 0x22 MlbContent.value
    | _ => body.spell 0x22 MlbContent.value
  | mlLiteral body =>
    match body.start with
    | .newline _ :: start => { body with start }.spell 0x27 MllContent.bytes
    | _ => body.spell 0x27 MllContent.bytes

/-! ## Keys -/

/-- `simple-key`. -/
inductive SimpleKey where
  | bare (first : {b : UInt8 // IsBareKey b}) (rest : Run IsBareKey)
  | basic (chars : List BasicChar)
  | literal (chars : Run IsLiteralChar)

/-- The bytes of a simple key. -/
def SimpleKey.bytes : SimpleKey → Bytes
  | bare first rest => first.val :: rest.bytes
  | basic chars => (Str.basic chars).bytes
  | literal chars => (Str.literal chars).bytes

/-- The name of a simple key. -/
def SimpleKey.name : SimpleKey → Bytes
  | bare first rest => first.val :: rest.bytes
  | basic chars => (Str.basic chars).value
  | literal chars => (Str.literal chars).value

/-- `key`: simple keys with dots between them. -/
structure Key where
  first : SimpleKey
  /-- The blanks around a dot, and the key behind it. -/
  rest : List (Blanks × Blanks × SimpleKey)

/-- The bytes of a key. -/
def Key.bytes (key : Key) : Bytes :=
  key.first.bytes ++ key.rest.flatMap fun part =>
    part.1.bytes ++ [0x2E] ++ part.2.1.bytes ++ part.2.2.bytes

/-- The names of a key, from the outermost table in. -/
def Key.path (key : Key) : List Bytes := key.first.name :: key.rest.map fun part => part.2.2.name

/-! ## Values -/

/-- One step of `ws-comment-newline`. -/
inductive GapItem where
  | blank (b : {b : UInt8 // IsBlank b})
  | newline (comment : Comment) (nl : Newline)

/-- `ws-comment-newline`. -/
abbrev Gap := List GapItem

mutual

/-- `val`. -/
inductive Value where
  | scalar (first : {b : UInt8 // IsScalarStart b}) (rest : Run IsScalarByte)
  | string (s : Str)
  | array (items : Items)
  | emptyTable (blanks : Blanks)
  | inlineTable (blanks : Blanks) (entries : Entries)

/-- What stands behind the opening bracket of an array. -/
inductive Items where
  | close (gap : Gap)
  | last (before : Gap) (value : Value) (after : Gap)
  | cons (before : Gap) (value : Value) (after : Gap) (rest : Items)

/-- What stands behind the opening brace of an inline table that is not empty. -/
inductive Entries where
  | last (key : Key) (before after : Blanks) (value : Value) (close : Blanks)
  | cons (key : Key) (before after : Blanks) (value : Value) (close next : Blanks) (rest : Entries)

end

/-- Where a byte of a document stands. -/
inductive Origin where
  | root
  | table
  | array
  | multiline
  deriving DecidableEq, Repr

/-- A byte and where it stands. -/
abbrev Placed := Origin × UInt8

/-- Bytes that stand in one place. -/
def mark (o : Origin) (bs : Bytes) : List Placed := bs.map fun b => (o, b)

/-- Marked bytes are the bytes, -/
@[simp] theorem map_snd_mark (o : Origin) (bs : Bytes) : (mark o bs).map Prod.snd = bs := by
  rw [mark, List.map_map]
  exact List.map_id bs

/-- marked one by one. -/
@[simp] theorem mark_append (o : Origin) (bs bs' : Bytes) :
    mark o (bs ++ bs') = mark o bs ++ mark o bs' :=
  List.map_append

/-- A string in a place; a multi-line string is a place of its own. -/
def Str.render (o : Origin) : Str → List Placed
  | basic chars => mark o (basic chars).bytes
  | literal chars => mark o (literal chars).bytes
  | mlBasic body => mark .multiline (mlBasic body).bytes
  | mlLiteral body => mark .multiline (mlLiteral body).bytes

/-- The bytes of one step of a gap. -/
def GapItem.bytes : GapItem → Bytes
  | blank b => [b.val]
  | newline comment nl => comment.bytes ++ nl.bytes

/-- A gap of an array. -/
def renderGap (gap : Gap) : List Placed := mark .array (gap.flatMap GapItem.bytes)

mutual

/-- A value in a place. -/
def Value.render (o : Origin) : Value → List Placed
  | .scalar first rest => mark o (first.val :: rest.bytes)
  | .string s => s.render o
  | .array items => mark .array [0x5B] ++ items.render
  | .emptyTable blanks => mark .table (0x7B :: blanks.bytes ++ [0x7D])
  | .inlineTable blanks entries => mark .table (0x7B :: blanks.bytes) ++ entries.render

/-- The rest of an array. -/
def Items.render : Items → List Placed
  | .close gap => renderGap gap ++ mark .array [0x5D]
  | .last before value after =>
    renderGap before ++ value.render .array ++ renderGap after ++ mark .array [0x5D]
  | .cons before value after rest =>
    renderGap before ++ value.render .array ++ renderGap after ++ mark .array [0x2C] ++ rest.render

/-- The rest of an inline table. -/
def Entries.render : Entries → List Placed
  | .last key before after value close =>
    mark .table (key.bytes ++ before.bytes ++ [0x3D] ++ after.bytes) ++ value.render .table
      ++ mark .table (close.bytes ++ [0x7D])
  | .cons key before after value close next rest =>
    mark .table (key.bytes ++ before.bytes ++ [0x3D] ++ after.bytes) ++ value.render .table
      ++ mark .table (close.bytes ++ [0x2C] ++ next.bytes) ++ rest.render

end

/-! ## Documents -/

/-- `expression`. -/
inductive Expression where
  | blank (lead : Blanks) (comment : Comment)
  | keyval (lead : Blanks) (key : Key) (before after : Blanks) (value : Value) (trail : Blanks)
      (comment : Comment)
  /-- `[key]`, or `[[key]]` with `double`. -/
  | table (lead : Blanks) (double : Bool) (before : Blanks) (key : Key) (after trail : Blanks)
      (comment : Comment)

/-- The bytes of a table header. -/
def tableBytes (double : Bool) (before : Blanks) (key : Key) (after : Blanks) : Bytes :=
  (if double then [0x5B, 0x5B] else [0x5B]) ++ before.bytes ++ key.bytes ++ after.bytes
    ++ (if double then [0x5D, 0x5D] else [0x5D])

/-- An expression in a place. -/
def Expression.render (o : Origin) : Expression → List Placed
  | blank lead comment => mark o (lead.bytes ++ comment.bytes)
  | keyval lead key before after value trail comment =>
    mark o (lead.bytes ++ key.bytes ++ before.bytes ++ [0x3D] ++ after.bytes) ++ value.render o
      ++ mark o (trail.bytes ++ comment.bytes)
  | table lead double before key after trail comment =>
    mark .table (lead.bytes ++ tableBytes double before key after ++ trail.bytes ++ comment.bytes)

/-- Where the expressions behind this one stand. -/
def Expression.place (o : Origin) : Expression → Origin
  | table .. => .table
  | _ => o

/-- The expressions of a document in order, each on lines of its own. -/
def renderLines (o : Origin) (e : Expression) : List (Newline × Expression) → List Placed
  | [] => e.render o
  | (nl, e') :: rest =>
    e.render o ++ mark (e.place o) nl.bytes ++ renderLines (e.place o) e' rest

/-- The pairs of the root table: those before the first table header. -/
def rootPairs : Expression → List (Newline × Expression) → List (Key × Value)
  | .table .., _ => []
  | .blank .., [] => []
  | .blank .., (_, e) :: rest => rootPairs e rest
  | .keyval _ key _ _ value _ _, [] => [(key, value)]
  | .keyval _ key _ _ value _ _, (_, e) :: rest => (key, value) :: rootPairs e rest

/-- `toml`: expressions with newlines between them, in which no key of the root table is defined
twice. -/
structure Document where
  first : Expression
  rest : List (Newline × Expression)
  keys_nodup : ((rootPairs first rest).map fun pair => pair.1.path).Nodup

/-- The bytes of a document and where they stand. -/
def Document.render (doc : Document) : List Placed := renderLines .root doc.first doc.rest

/-- The bytes of a document. -/
def Document.bytes (doc : Document) : Bytes := doc.render.map Prod.snd

/-- The pairs of the root table of a document. -/
def Document.rootPairs (doc : Document) : List (Key × Value) := Toml.rootPairs doc.first doc.rest

/-- The root table has the key, and its value is a string. -/
def Document.HasString (doc : Document) (name value : Bytes) : Prop :=
  ∃ key s, (key, Value.string s) ∈ doc.rootPairs ∧ key.path = [name] ∧ s.value = value

/-- A key of the root table has one value. -/
theorem Document.HasString.unique {doc : Document} {name value value' : Bytes}
    (h : doc.HasString name value) (h' : doc.HasString name value') : value = value' := by
  obtain ⟨key, s, hmem, hpath, rfl⟩ := h
  obtain ⟨key', s', hmem', hpath', rfl⟩ := h'
  have heq : (key, Value.string s) = (key', Value.string s') :=
    List.inj_on_of_nodup_map doc.keys_nodup hmem hmem' (hpath.trans hpath'.symm)
  cases heq
  rfl

end CvmMeasure.Toml
