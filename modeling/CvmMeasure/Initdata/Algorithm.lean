import CvmMeasure.Python.Exceptions
import CvmMeasure.Python.Lines
import CvmMeasure.Python.Text
import CvmMeasure.Sequence.Runs
import Mathlib.Data.List.Basic

/-! # The initdata digest

`initdata.py`: the digest of an initdata document under the hash its `algorithm` key declares. The key is
looked for line by line with two regular expressions. The hash is an arbitrary function of the algorithm
and the bytes.

* **`matchAlgorithm`**, **`isTableHeader`**: the two expressions;
* **`parseAlgorithm`**, **`computeDigest`**: the search, and the digest;
* `matchAlgorithm_eq_some`: the text an algorithm line begins with. -/

namespace CvmMeasure.Initdata

open Binary Python Sequence

/-! ## The two expressions -/

/-- `[ \t]`. -/
def IsBlank (b : UInt8) : Prop := b = 0x20 ∨ b = 0x09

/-- `['"]`. -/
def IsQuote (b : UInt8) : Prop := b = 0x27 ∨ b = 0x22

/-- `[A-Za-z0-9_-]`. -/
def IsNameByte (b : UInt8) : Prop :=
  (0x41 ≤ b ∧ b ≤ 0x5A) ∨ (0x61 ≤ b ∧ b ≤ 0x7A) ∨ (0x30 ≤ b ∧ b ≤ 0x39) ∨ b = 0x5F ∨ b = 0x2D

instance : DecidablePred IsBlank := fun b => by unfold IsBlank; infer_instance
instance : DecidablePred IsQuote := fun b => by unfold IsQuote; infer_instance
instance : DecidablePred IsNameByte := fun b => by unfold IsNameByte; infer_instance

/-- What `_ALGORITHM` finds in a line: the group `name`, and the quotes around it. -/
structure AlgorithmMatch where
  opening : UInt8
  name : Bytes
  closing : UInt8
  deriving DecidableEq, Repr

/-- The quoted name at the end of `_ALGORITHM`. -/
def matchQuotedName : Bytes → Option AlgorithmMatch
  | [] => none
  | opening :: rest =>
    let name := rest.takeWhile fun b => IsNameByte b
    match rest.dropWhile fun b => IsNameByte b with
    | [] => none
    | closing :: _ =>
      if IsQuote opening ∧ name ≠ [] ∧ IsQuote closing then some ⟨opening, name, closing⟩ else none

/-- `_ALGORITHM.match(line)`. -/
def matchAlgorithm (line : Bytes) : Option AlgorithmMatch := do
  let behindKey ← (line.dropWhile fun b => IsBlank b).dropPrefix? (asciiBytes "algorithm")
  let behindSign ← (behindKey.dropWhile fun b => IsBlank b).dropPrefix? (asciiBytes "=")
  matchQuotedName (behindSign.dropWhile fun b => IsBlank b)

/-- `_TABLE_HEADER.match(line)`. -/
def isTableHeader (line : Bytes) : Bool :=
  (line.dropWhile fun b => IsBlank b).head? == some 0x5B

/-- The text begins with a quoted name. -/
structure BeginsName (s : Bytes) (found : AlgorithmMatch) : Prop where
  text : ∃ rest, s = found.opening :: (found.name ++ found.closing :: rest)
  opening : IsQuote found.opening
  name_ne : found.name ≠ []
  name : ∀ b ∈ found.name, IsNameByte b
  closing : IsQuote found.closing

/-- The text begins with the key, an equals sign and a quoted name, with blanks between them. -/
def BeginsAlgorithm (s : Bytes) (found : AlgorithmMatch) : Prop :=
  ∃ a b c rest, (∀ x ∈ a, IsBlank x) ∧ (∀ x ∈ b, IsBlank x) ∧ (∀ x ∈ c, IsBlank x) ∧
    s = a ++ (asciiBytes "algorithm" ++ (b ++ (asciiBytes "=" ++ (c ++ rest)))) ∧ BeginsName rest found

/-- A quote is no part of a name, -/
theorem not_isNameByte_of_isQuote {b : UInt8} (h : IsQuote b) : ¬ IsNameByte b := by
  rcases h with rfl | rfl <;> decide

/-- and no blank. -/
theorem not_isBlank_of_isQuote {b : UInt8} (h : IsQuote b) : ¬ IsBlank b := by
  rcases h with rfl | rfl <;> decide

/-- The pattern matches a quoted name at the beginning. -/
theorem matchQuotedName_eq_some {s : Bytes} {found : AlgorithmMatch} :
    matchQuotedName s = some found ↔ BeginsName s found := by
  constructor
  · intro h
    cases s with
    | nil => cases h
    | cons opening rest =>
      simp only [matchQuotedName] at h
      split at h
      · cases h
      · rename_i closing behind hbehind
        split at h
        · rename_i hquotes
          obtain rfl := Option.some.inj h
          refine ⟨⟨behind, ?_⟩, hquotes.1, hquotes.2.1, forall_mem_takeWhile rest, hquotes.2.2⟩
          rw [← hbehind, List.takeWhile_append_dropWhile]
        · cases h
  · rintro ⟨⟨rest, rfl⟩, hopening, hne, hname, hclosing⟩
    have hstops : Stops IsNameByte (found.closing :: rest) :=
      stops_cons (not_isNameByte_of_isQuote hclosing) rest
    simp only [matchQuotedName, takeWhile_append_stops hname hstops,
      dropWhile_append_stops hname hstops]
    rw [if_pos ⟨hopening, hne, hclosing⟩]

/-- Blanks, then a text that does not begin with one. -/
theorem dropWhile_blank_dropPrefix {s key behind : Bytes} (hkey : Stops IsBlank (key ++ behind)) :
    (s.dropWhile fun b => IsBlank b).dropPrefix? key = some behind ↔
      ∃ w, (∀ x ∈ w, IsBlank x) ∧ s = w ++ (key ++ behind) := by
  rw [List.dropPrefix?_eq_some_iff]
  constructor
  · rintro ⟨key', heq, hbeq⟩
    obtain rfl := eq_of_beq hbeq
    refine ⟨s.takeWhile fun b => IsBlank b, forall_mem_takeWhile s, ?_⟩
    rw [← heq, List.takeWhile_append_dropWhile]
  · rintro ⟨w, hw, rfl⟩
    exact ⟨key, dropWhile_append_stops hw hkey, BEq.refl key⟩

/-- The key begins with no blank. -/
theorem stops_algorithm (y : Bytes) : Stops IsBlank (asciiBytes "algorithm" ++ y) :=
  stops_cons (by decide : ¬ IsBlank 0x61) _

/-- **What `_ALGORITHM` matches.** -/
theorem matchAlgorithm_eq_some {s : Bytes} {found : AlgorithmMatch} :
    matchAlgorithm s = some found ↔ BeginsAlgorithm s found := by
  have hsign : ∀ behind, Stops IsBlank (asciiBytes "=" ++ behind) := fun behind =>
    stops_cons (by decide : ¬ IsBlank 0x3D) _
  simp only [matchAlgorithm, Option.bind_eq_bind, Option.bind_eq_some_iff,
    dropWhile_blank_dropPrefix (stops_algorithm _), dropWhile_blank_dropPrefix (hsign _),
    matchQuotedName_eq_some]
  constructor
  · rintro ⟨_, ⟨a, ha, rfl⟩, behind, ⟨b, hb, rfl⟩, hname⟩
    refine ⟨a, b, behind.takeWhile fun x => IsBlank x, behind.dropWhile fun x => IsBlank x, ha, hb,
      forall_mem_takeWhile behind, ?_, hname⟩
    rw [List.takeWhile_append_dropWhile]
  · rintro ⟨a, b, c, rest, ha, hb, hc, rfl, hname⟩
    refine ⟨_, ⟨a, ha, rfl⟩, _, ⟨b, hb, rfl⟩, ?_⟩
    obtain ⟨⟨rest, rfl⟩, hopening, -⟩ := id hname
    rwa [dropWhile_append_stops hc (stops_cons (not_isBlank_of_isQuote hopening) _)]

/-- What stands behind the name does not matter. -/
theorem BeginsName.append {s : Bytes} {found : AlgorithmMatch} (h : BeginsName s found) (y : Bytes) :
    BeginsName (s ++ y) found := by
  obtain ⟨rest, rfl⟩ := h.text
  refine ⟨⟨rest ++ y, ?_⟩, h.opening, h.name_ne, h.name, h.closing⟩
  simp only [List.cons_append, List.append_assoc]

/-- What begins with the pattern does so with more text behind. -/
theorem BeginsAlgorithm.append {s : Bytes} {found : AlgorithmMatch} (h : BeginsAlgorithm s found)
    (y : Bytes) : BeginsAlgorithm (s ++ y) found := by
  obtain ⟨a, b, c, rest, ha, hb, hc, rfl, hname⟩ := h
  refine ⟨a, b, c, rest ++ y, ha, hb, hc, ?_, hname.append y⟩
  simp only [List.append_assoc]

/-! ## The search -/

/-- `SUPPORTED_ALGORITHMS`. -/
def supportedAlgorithms : List String := ["sha256", "sha384", "sha512"]

/-- The supported algorithms as the messages list them. -/
def supportedText : String := ", ".intercalate supportedAlgorithms

/-- `bytes.decode("ascii")` of bytes below 128. -/
def asciiText (bs : Bytes) : String := String.ofList (bs.map fun b => Char.ofNat b.toNat)

/-- No line declares an algorithm. -/
def noAlgorithm : PyError :=
  .valueError s!"initdata declares no top-level 'algorithm' key, so the digest CoCo would compute for it is undefined. Add one of {supportedText}."

/-- The name found, if CoCo implements it. -/
def supportedName (found : AlgorithmMatch) : Py String := do
  let name := asciiText found.name
  refuseIf (name ∉ supportedAlgorithms)
    (.valueError
      s!"initdata declares algorithm {reprText name}, which CoCo does not implement. Supported: {supportedText}.")
  pure name

/-- The loop of `parse_algorithm`. -/
def algorithmLoop : List Bytes → Py String
  | [] => throw noAlgorithm
  | line :: lines =>
    if isTableHeader line then throw noAlgorithm
    else
      match matchAlgorithm line with
      | none => algorithmLoop lines
      | some found => supportedName found

/-- `parse_algorithm`: the digest algorithm an initdata document declares. -/
def parseAlgorithm (toml : Bytes) : Py String := algorithmLoop (splitlines id toml)

/-- The check of `compute_digest` on the algorithm a platform requires. -/
def checkRequired (required : Option String) (algorithm : String) : Py Unit :=
  match required with
  | none => pure ()
  | some req =>
    refuseIf (algorithm ≠ req)
      (.valueError
        s!"initdata declares algorithm {reprText algorithm}, but this platform measures a {req} digest. The value CoCo computes for this file would not be the value the register holds.")

/-- `compute_digest`: the digest of the bytes with the algorithm they declare. -/
def computeDigest (hashNew : String → Bytes → Bytes) (data : Bytes) (required : Option String) :
    Py Bytes := do
  let algorithm ← parseAlgorithm data
  checkRequired required algorithm
  pure (hashNew algorithm data)

/-! ## The line that decides -/

/-- The search ends at the line. -/
def decides (line : Bytes) : Bool := isTableHeader line || (matchAlgorithm line).isSome

/-- A line that decides begins, behind blanks, with a bracket or the key's first letter. -/
theorem decides_start {line : Bytes} (h : decides line = true) :
    ∃ w c rest, line = w ++ c :: rest ∧ (∀ x ∈ w, IsBlank x) ∧ (c = 0x5B ∨ c = 0x61) := by
  rcases Bool.or_eq_true_iff.mp h with hheader | hmatch
  · obtain ⟨rest, hrest⟩ := List.head?_eq_some_iff.mp (beq_iff_eq.mp hheader)
    refine ⟨line.takeWhile fun b => IsBlank b, 0x5B, rest, ?_, forall_mem_takeWhile line, Or.inl rfl⟩
    rw [← hrest, List.takeWhile_append_dropWhile]
  · obtain ⟨found, hfound⟩ := Option.isSome_iff_exists.mp hmatch
    obtain ⟨a, b, c, rest, ha, -, -, rfl, -⟩ := matchAlgorithm_eq_some.mp hfound
    exact ⟨a, 0x61, _, rfl, ha, Or.inr rfl⟩

/-- A line that declares an algorithm is no table header. -/
theorem not_isTableHeader {line : Bytes} {found : AlgorithmMatch}
    (h : matchAlgorithm line = some found) : isTableHeader line = false := by
  obtain ⟨a, b, c, rest, ha, -, -, rfl, -⟩ := matchAlgorithm_eq_some.mp h
  rw [isTableHeader, dropWhile_append_stops ha (stops_algorithm _)]
  rfl

/-- A name passes if it is one of the supported ones. -/
theorem supportedName_eq_ok {found : AlgorithmMatch} {name : String} :
    supportedName found = .ok name ↔ asciiText found.name = name ∧ name ∈ supportedAlgorithms := by
  simp only [supportedName, bind_eq_ok, refuseIf_eq_ok, not_not, pure_eq_ok]
  constructor
  · rintro ⟨_, hmem, rfl⟩
    exact ⟨rfl, hmem⟩
  · rintro ⟨rfl, hmem⟩
    exact ⟨(), hmem, rfl⟩

/-- The loop returns the supported name of the first line that decides. -/
theorem algorithmLoop_eq_ok {lines : List Bytes} {name : String} :
    algorithmLoop lines = .ok name ↔
      ∃ line found, lines.find? decides = some line ∧ matchAlgorithm line = some found ∧
        asciiText found.name = name ∧ name ∈ supportedAlgorithms := by
  induction lines with
  | nil => simp [algorithmLoop]
  | cons line lines ih =>
    rw [algorithmLoop]
    by_cases hheader : isTableHeader line = true
    · rw [if_pos hheader, List.find?_cons_of_pos (by rw [decides, hheader, Bool.true_or])]
      refine iff_of_false throw_ne_ok ?_
      rintro ⟨_, found, hline, hfound, -⟩
      obtain rfl := Option.some.inj hline
      rw [not_isTableHeader hfound] at hheader
      cases hheader
    · rw [if_neg hheader]
      cases hmatch : matchAlgorithm line with
      | none =>
        rw [List.find?_cons_of_neg (by simp [decides, hheader, hmatch])]
        exact ih
      | some found =>
        rw [List.find?_cons_of_pos (by simp [decides, hmatch])]
        show supportedName found = .ok name ↔ _
        rw [supportedName_eq_ok]
        constructor
        · rintro ⟨hname, hmem⟩
          exact ⟨line, found, rfl, hmatch, hname, hmem⟩
        · rintro ⟨_, found', hline, hfound, hname⟩
          obtain rfl := Option.some.inj hline
          rw [Option.some.inj (hmatch.symm.trans hfound)]
          exact hname

/-- **The name returned is the one in the line that decides.** -/
theorem parseAlgorithm_eq_ok {toml : Bytes} {name : String} :
    parseAlgorithm toml = .ok name ↔
      ∃ line found, (splitlines id toml).find? decides = some line ∧
        matchAlgorithm line = some found ∧ asciiText found.name = name ∧ name ∈ supportedAlgorithms :=
  algorithmLoop_eq_ok

/-- A document without such a line is refused with `ValueError`, and so is one with another name. -/
theorem onlyValueError_parseAlgorithm (toml : Bytes) : OnlyValueError (parseAlgorithm toml) := by
  unfold parseAlgorithm
  induction splitlines id toml with
  | nil => exact onlyValueError_throw _
  | cons line lines ih =>
    rw [algorithmLoop]
    split
    · exact onlyValueError_throw _
    · split
      · exact ih
      · exact (onlyValueError_refuseIf _ _).andThen fun _ => onlyValueError_pure _

/-- What is digested, and with which algorithm. -/
theorem computeDigest_eq_ok {hashNew : String → Bytes → Bytes} {data digest : Bytes}
    {required : Option String} (h : computeDigest hashNew data required = .ok digest) :
    ∃ name, parseAlgorithm data = .ok name ∧ digest = hashNew name data := by
  simp only [computeDigest, bind_eq_ok, pure_eq_ok] at h
  obtain ⟨name, hname, _, -, rfl⟩ := h
  exact ⟨name, hname, rfl⟩

/-- The names of supported algorithms are found as they are written. -/
theorem asciiBytes_asciiText {bs : Bytes} (h : ∀ b ∈ bs, IsNameByte b) :
    asciiBytes (asciiText bs) = bs := by
  have hbyte : ∀ n < 128, UInt8.ofNat (Char.ofNat n).toNat = UInt8.ofNat n := by decide
  rw [asciiBytes, asciiText, String.toList_ofList, List.map_map]
  refine (List.map_congr_left fun b hb => ?_).trans (List.map_id bs)
  have hlt : b.toNat < 128 := by
    have hname := h b hb
    simp only [IsNameByte, UInt8.le_iff_toNat_le] at hname
    rcases hname with ⟨-, hle⟩ | ⟨-, hle⟩ | ⟨-, hle⟩ | rfl | rfl
    · exact hle.trans_lt (by decide)
    · exact hle.trans_lt (by decide)
    · exact hle.trans_lt (by decide)
    · decide
    · decide
  show UInt8.ofNat (Char.ofNat b.toNat).toNat = b
  rw [hbyte b.toNat hlt, UInt8.ofNat_toNat]

end CvmMeasure.Initdata
