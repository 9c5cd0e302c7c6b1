import CvmMeasure.AzureSnp.Registers
import CvmMeasure.Initdata.Algorithm
import CvmMeasure.Python.Words
import Mathlib.Data.Bool.AllAny

/-! # All vTPM registers

`compute_all` of `azure_snp/registers.py`, and the root hash the tool reports beside the registers.

* **`resolvePcr8`**: PCR 8 from whichever form of it the caller supplied;
* **`ComputedPcrs`**, **`computeAll`**: the five registers;
* **`roothash`**: the dm-verity root hash on the command line; **`roothash_iff`**: the value of the
  first word of the command line that assigns one. -/

namespace CvmMeasure.AzureSnp

open Binary Python Pe

/-- `digest_from_hex`: decode a SHA-256 hex string, rejecting anything else. -/
def digestFromHex (value what : String) : Py Bytes :=
  match fromHex? value with
  | none => throw (.valueError s!"{what} is not valid hex: {reprText value}")
  | some raw => do
    refuseIf (raw.length ≠ sha256Size)
      (.valueError
        s!"{what} must be a {sha256Size}-byte SHA-256 digest ({sha256Size * 2} hex chars), got {raw.length} bytes")
    pure raw

/-- `ComputedPcrs`: the registers this tool computes, as hex strings. -/
structure ComputedPcrs where
  pcr4 : String
  pcr5 : String
  pcr8 : String
  pcr9 : String
  pcr11 : String
  deriving DecidableEq, Repr

/-- `as_dict`. -/
def ComputedPcrs.asDict (pcrs : ComputedPcrs) : Dict String String :=
  [("pcr4", pcrs.pcr4), ("pcr5", pcrs.pcr5), ("pcr8", pcrs.pcr8), ("pcr9", pcrs.pcr9),
    ("pcr11", pcrs.pcr11)]

section

variable (sha256 : Bytes → Bytes) (hashNew : String → Bytes → Bytes)

/-- `_resolve_pcr8`: settle PCR 8 from whichever form of it the caller supplied; without any, it holds
zeros. -/
def resolvePcr8 (initdata : Option Bytes) (pcr8Hex : Option String) : Py String := do
  refuseIf (initdata.isSome ∧ pcr8Hex.isSome)
    (.valueError
      "Pass either initdata or pcr8_hex, not both. They are two ways to state the same register, and nothing here can tell you which one to believe if they disagree.")
  match initdata with
  | some data => do
    let digest ← Initdata.computeDigest hashNew data none
    computePcr8 sha256 digest
  | none =>
    match pcr8Hex with
    | some value => do
      let raw ← digestFromHex value "pcr8"
      pure (hex raw)
    | none => pure (hex zeroPcr)

/-- `compute_all`: PCR 4, 5, 8, 9 and 11. -/
def computeAll (uki gptEventData : Bytes) (initdata : Option Bytes) (pcr8Hex : Option String) :
    Py ComputedPcrs := do
  let pcr4 ← computePcr4 sha256 uki
  let pcr5 := computePcr5 sha256 gptEventData
  let pcr8 ← resolvePcr8 sha256 hashNew initdata pcr8Hex
  let pcr9 ← computePcr9 sha256 uki
  let pcr11 ← computePcr11 sha256 uki
  pure { pcr4, pcr5, pcr8, pcr9, pcr11 }

end

/-- `token.split("=", 1)[1]`: what stands behind the first equals sign. -/
def assignedValue (token : List Char) : List Char := (token.dropWhile (· != '=')).drop 1

/-- The word begins with `roothash=`. -/
def assignsRoothash (token : List Char) : Bool := "roothash=".toList.isPrefixOf token

/-- The loop of `roothash` over the words of the command line. -/
def roothashLoop : List (List Char) → Option (List Char)
  | [] => none
  | token :: tokens =>
    if assignsRoothash token then some (assignedValue token) else roothashLoop tokens

/-- `roothash`: the dm-verity root hash pinned on the command line, if there is one. -/
def roothash (uki : Bytes) : Py (Option (List Char)) := do
  let cmdline ← ukiCmdline uki
  pure (roothashLoop (words cmdline))

/-! ## The root hash on the command line -/

/-- A word that assigns a root hash. -/
def roothashWord (value : List Char) : List Char :=
  ['r', 'o', 'o', 't', 'h', 'a', 's', 'h', '='] ++ value

/-- The value of the word is what follows the equals sign. -/
@[simp] theorem assignedValue_roothashWord (value : List Char) :
    assignedValue (roothashWord value) = value := rfl

/-- The word is never empty. -/
theorem roothashWord_ne_nil (value : List Char) : roothashWord value ≠ [] := List.cons_ne_nil _ _

/-- It goes on as far as its value does. -/
theorem roothashWord_append (value post : List Char) :
    roothashWord (value ++ post) = roothashWord value ++ post :=
  (List.append_assoc _ value post).symm

/-- The key has no whitespace. -/
theorem roothashWord_no_space {value : List Char} (h : ∀ c ∈ value, isSpace c = false) :
    ∀ c ∈ roothashWord value, isSpace c = false := by
  have hkey : ∀ c ∈ ['r', 'o', 'o', 't', 'h', 'a', 's', 'h', '='], isSpace c = false :=
    List.all_iff_forall_prop.mp (by decide)
  intro c hc
  rcases List.mem_append.mp hc with hc | hc
  · exact hkey c hc
  · exact h c hc

/-- A token assigns the root hash if it is such a word. -/
theorem assignsRoothash_iff {token : List Char} :
    assignsRoothash token = true ↔ ∃ value, token = roothashWord value := by
  have hkey : "roothash=".toList = ['r', 'o', 'o', 't', 'h', 'a', 's', 'h', '='] := by decide
  rw [assignsRoothash, hkey, List.isPrefixOf_iff_prefix]
  exact exists_congr fun value => eq_comm

/-- The first word that assigns a root hash decides. -/
theorem roothashLoop_eq_some {tokens : List (List Char)} {value : List Char} :
    roothashLoop tokens = some value ↔
      ∃ before after, tokens = before ++ roothashWord value :: after ∧
        ∀ token ∈ before, assignsRoothash token = false := by
  induction tokens with
  | nil => simp [roothashLoop]
  | cons token tokens ih =>
    rw [roothashLoop]
    by_cases htoken : assignsRoothash token = true
    · rw [if_pos htoken]
      obtain ⟨found, rfl⟩ := assignsRoothash_iff.mp htoken
      rw [assignedValue_roothashWord, Option.some.injEq]
      constructor
      · rintro rfl
        exact ⟨[], tokens, rfl, fun _ h => absurd h List.not_mem_nil⟩
      · rintro ⟨before, after, heq, hbefore⟩
        cases before with
        | nil =>
          rw [List.nil_append, List.cons.injEq] at heq
          exact List.append_cancel_left heq.1
        | cons other before =>
          obtain ⟨rfl, -⟩ := List.cons.inj heq
          rw [hbefore _ List.mem_cons_self] at htoken
          cases htoken
    · rw [if_neg htoken, ih]
      rw [Bool.not_eq_true] at htoken
      constructor
      · rintro ⟨before, after, rfl, hbefore⟩
        exact ⟨token :: before, after, rfl, List.forall_mem_cons.mpr ⟨htoken, hbefore⟩⟩
      · rintro ⟨before, after, heq, hbefore⟩
        cases before with
        | nil =>
          obtain ⟨rfl, -⟩ := List.cons.inj heq
          rw [assignsRoothash_iff.mpr ⟨value, rfl⟩] at htoken
          cases htoken
        | cons other before =>
          obtain ⟨rfl, rfl⟩ := List.cons.inj heq
          exact ⟨before, after, rfl, (List.forall_mem_cons.mp hbefore).2⟩

/-- The loop finds nothing exactly if no word assigns a root hash. -/
theorem roothashLoop_eq_none {tokens : List (List Char)} :
    roothashLoop tokens = none ↔ ∀ token ∈ tokens, assignsRoothash token = false := by
  induction tokens with
  | nil => simp [roothashLoop]
  | cons token tokens ih =>
    rw [roothashLoop, List.forall_mem_cons]
    by_cases htoken : assignsRoothash token = true
    · rw [if_pos htoken]
      exact iff_of_false (Option.some_ne_none _) fun h => by rw [htoken] at h; cases h.1
    · rw [if_neg htoken, ih]
      rw [Bool.not_eq_true] at htoken
      exact ⟨fun h => ⟨htoken, h⟩, And.right⟩

/-- The text has a word that begins with `roothash=` behind `pre`; `rest` is what follows the sign. -/
def AssignsAt (cmdline pre rest : List Char) : Prop :=
  cmdline = pre ++ (roothashWord rest) ∧ BeginsWord pre

/-- The word at such a place. -/
theorem AssignsAt.words_eq {cmdline pre rest : List Char} (h : AssignsAt cmdline pre rest) :
    ∃ value post, rest = value ++ post ∧ (∀ c ∈ roothashWord value, isSpace c = false) ∧
      EndsWord post ∧ words cmdline = words pre ++ roothashWord value :: words post := by
  obtain ⟨rfl, hpre⟩ := h
  have hvalue : ∀ c ∈ rest.takeWhile (fun c => !isSpace c), isSpace c = false := by
    intro c hc
    simpa using List.mem_takeWhile_imp hc
  have hspace := roothashWord_no_space hvalue
  have hpost := endsWord_dropWhile rest
  refine ⟨_, _, List.takeWhile_append_dropWhile.symm, hspace, hpost, ?_⟩
  rw [← words_between hpre (roothashWord_ne_nil _) hspace hpost, ← roothashWord_append,
    List.takeWhile_append_dropWhile]

/-- A word of the text that assigns a root hash stands at such a place. -/
theorem exists_assignsAt {cmdline value : List Char} {before after : List (List Char)}
    (h : words cmdline = before ++ roothashWord value :: after) :
    ∃ pre post, AssignsAt cmdline pre (value ++ post) ∧ EndsWord post ∧
      (∀ c ∈ value, isSpace c = false) ∧ words pre = before := by
  obtain ⟨pre, post, rfl, hpre, -, hspace, hpost, hbefore, -⟩ := exists_word h
  refine ⟨pre, post, ⟨?_, hpre⟩, hpost, fun c hc => hspace c (List.mem_append_right _ hc), hbefore⟩
  rw [roothashWord_append]

/-- What ends in a piece without whitespace is not followed by a new word. -/
theorem not_beginsWord_append {pre r : List Char} (hne : r ≠ []) (hr : ∀ c ∈ r, isSpace c = false) :
    ¬ BeginsWord (pre ++ r) := by
  intro hbegins
  have hlast : isSpace (r.getLast hne) = true := by
    apply hbegins
    rw [List.getLast?_append_of_ne_nil _ hne, List.getLast?_eq_some_getLast hne]
    rfl
  rw [hr _ (List.getLast_mem hne)] at hlast
  cases hlast

/-- A place in front of another one shows in the words in front of that one. -/
theorem AssignsAt.mem_words {cmdline pre rest pre' rest' : List Char}
    (h : AssignsAt cmdline pre rest) (h' : AssignsAt cmdline pre' rest')
    (hlt : pre'.length < pre.length) : ∃ token ∈ words pre, assignsRoothash token = true := by
  obtain ⟨value, post, rfl, hspace, hpost, -⟩ := h'.words_eq
  obtain ⟨hcmdline, hpre⟩ := h
  obtain ⟨hcmdline', hpre'⟩ := h'
  -- the text up to the later place goes on behind the earlier one
  have hjoin : pre' ++ (roothashWord value ++ post) = pre ++ roothashWord rest := by
    rw [← hcmdline, hcmdline', roothashWord_append]
  obtain ⟨r, rfl, hr⟩ := (List.append_eq_append_iff.mp hjoin).resolve_right fun h => by
    obtain ⟨r, hlonger, -⟩ := h
    rw [hlonger, List.length_append] at hlt
    omega
  have hne : r ≠ [] := by
    rintro rfl
    simp at hlt
  -- the word at the earlier place ends in front of the later one, where whitespace stands
  rcases List.append_eq_append_iff.mp hr with ⟨r', rfl, hpost'⟩ | ⟨r', hword, -⟩
  · have hne' : r' ≠ [] := by
      rintro rfl
      rw [List.append_nil] at hpre hne
      exact not_beginsWord_append hne hspace hpre
    have hends : EndsWord r' := by
      obtain ⟨c, r', rfl⟩ := List.exists_cons_of_ne_nil hne'
      rw [hpost'] at hpost
      exact fun x hx => hpost x hx
    refine ⟨roothashWord value, ?_, assignsRoothash_iff.mpr ⟨value, rfl⟩⟩
    rw [words_between hpre' (roothashWord_ne_nil value) hspace hends]
    exact List.mem_append_right _ List.mem_cons_self
  · refine absurd hpre (not_beginsWord_append hne fun c hc => hspace c ?_)
    rw [hword]
    exact List.mem_append_left _ hc

/-- A word that assigns the root hash stands somewhere in the command line. -/
theorem exists_assignsAt_of_mem {cmdline token : List Char} (hmem : token ∈ words cmdline)
    (htoken : assignsRoothash token = true) : ∃ pre rest, AssignsAt cmdline pre rest := by
  obtain ⟨value, rfl⟩ := assignsRoothash_iff.mp htoken
  obtain ⟨before, after, hwords⟩ := List.append_of_mem hmem
  obtain ⟨pre, post, hat, -⟩ := exists_assignsAt hwords
  exact ⟨pre, _, hat⟩

/-- A place in the beginning of a text is a place in the text. -/
theorem AssignsAt.append {cmdline pre rest : List Char} (h : AssignsAt cmdline pre rest) (more : List Char) :
    AssignsAt (cmdline ++ more) pre (rest ++ more) := by
  obtain ⟨rfl, hpre⟩ := h
  exact ⟨by rw [roothashWord_append, List.append_assoc], hpre⟩

/-- The assignment stands inside the command line. -/
theorem AssignsAt.length_lt {cmdline pre rest : List Char} (h : AssignsAt cmdline pre rest) :
    pre.length < cmdline.length := by
  obtain ⟨rfl, -⟩ := h
  rw [List.length_append, roothashWord, List.length_append, List.length_cons]
  omega

/-- The loop over the words stops at the first place. -/
theorem roothashLoop_words_eq_some {cmdline value : List Char} :
    roothashLoop (words cmdline) = some value ↔
      ∃ pre post, AssignsAt cmdline pre (value ++ post) ∧ EndsWord post ∧
        (∀ c ∈ value, isSpace c = false) ∧
        ∀ pre' rest', AssignsAt cmdline pre' rest' → pre.length ≤ pre'.length := by
  rw [roothashLoop_eq_some]
  constructor
  · rintro ⟨before, after, hwords, hbefore⟩
    obtain ⟨pre, post, hat, hpost, hvalue, hpre⟩ := exists_assignsAt hwords
    refine ⟨pre, post, hat, hpost, hvalue, fun pre' rest' hat' => Nat.le_of_not_lt fun hlt => ?_⟩
    obtain ⟨token, hmem, htoken⟩ := hat.mem_words hat' hlt
    rw [hbefore token (hpre ▸ hmem)] at htoken
    cases htoken
  · rintro ⟨pre, post, ⟨rfl, hpre⟩, hpost, hvalue, hfirst⟩
    refine ⟨words pre, words post, ?_, fun token hmem => ?_⟩
    · rw [roothashWord_append]
      exact words_between hpre (roothashWord_ne_nil value) (roothashWord_no_space hvalue) hpost
    · -- an earlier word that assigns one would stand at an earlier place
      rw [Bool.eq_false_iff]
      intro htoken
      obtain ⟨pre', rest', hat⟩ := exists_assignsAt_of_mem hmem htoken
      exact absurd hat.length_lt (Nat.not_lt.mpr (hfirst pre' _ (hat.append _)))

/-- And runs through them all if there is no such place. -/
theorem roothashLoop_words_eq_none {cmdline : List Char} :
    roothashLoop (words cmdline) = none ↔ ∀ pre rest, ¬ AssignsAt cmdline pre rest := by
  rw [roothashLoop_eq_none]
  constructor
  · intro hnone pre rest hat
    obtain ⟨value, post, -, -, -, hwords⟩ := hat.words_eq
    have hassigns := hnone (roothashWord value) (by rw [hwords]; simp)
    rw [assignsRoothash_iff.mpr ⟨value, rfl⟩] at hassigns
    cases hassigns
  · intro hnowhere token hmem
    rw [Bool.eq_false_iff]
    intro htoken
    obtain ⟨pre, rest, hat⟩ := exists_assignsAt_of_mem hmem htoken
    exact hnowhere pre rest hat

/-- **The root hash reported is that of the first word that assigns one.** It is what follows
`roothash=` up to whitespace or the end, at the first place of the command line where a word begins
with `roothash=`; without such a place none is reported. -/
theorem roothash_iff {uki : Bytes} {cmdline : List Char} (hcmdline : ukiCmdline uki = .ok cmdline) :
    (∀ value, roothash uki = .ok (some value) ↔
      ∃ pre post, AssignsAt cmdline pre (value ++ post) ∧ EndsWord post ∧
        (∀ c ∈ value, isSpace c = false) ∧
        ∀ pre' rest', AssignsAt cmdline pre' rest' → pre.length ≤ pre'.length) ∧
    (roothash uki = .ok none ↔ ∀ pre rest, ¬ AssignsAt cmdline pre rest) := by
  have hroothash : roothash uki = .ok (roothashLoop (words cmdline)) := by
    rw [roothash, hcmdline, ok_bind]
    rfl
  rw [hroothash, Except.ok.injEq]
  refine ⟨fun value => ?_, roothashLoop_words_eq_none⟩
  rw [Except.ok.injEq]
  exact roothashLoop_words_eq_some

/-- The root hash of the small UKI. -/
theorem roothash_iff_sample : roothash sampleBootImage = .ok (some "ab12".toList) := by
  have hcmdline : ukiCmdline sampleBootImage = .ok "roothash=ab12 quiet".toList := by decide +kernel
  have hends : EndsWord " quiet".toList := by
    intro c hc
    obtain rfl : ' ' = c := Option.some.inj hc
    rfl
  have hword : ∀ c ∈ "ab12".toList, isSpace c = false := List.all_iff_forall_prop.mp (by decide)
  exact ((roothash_iff hcmdline).1 _).mpr
    ⟨[], " quiet".toList, ⟨by decide, by simp [BeginsWord]⟩, hends, hword, fun _ _ _ => Nat.zero_le _⟩

end CvmMeasure.AzureSnp
