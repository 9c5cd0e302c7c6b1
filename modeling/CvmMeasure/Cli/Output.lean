import CvmMeasure.Json.RoundTrip

/-! # Printed registers

`_output_registers` of `cli.py`: a dictionary of register values as text, one line each with the values
lined up, or as a JSON object. A script reads either of them.

* **`outputRegisters`**: the two formats;
* `readText`, `readJson`: what a reader makes of them;
* **`readText_outputText`**, **`readJson_outputJson`**: both give the dictionary back. -/

namespace CvmMeasure.Cli

open Python Json

/-- `--output-format`. -/
inductive OutputFormat where
  | text
  | json
  deriving DecidableEq, Repr

/-- `max((len(key) for key in data), default=0) + 1`. -/
def labelWidth (data : Dict String String) : Nat :=
  (data.map fun kv => kv.1.toList.length).foldr max 0 + 1

/-- One line: `f"{key + ':':<{label_width}} {value}"`. -/
def registerLine (width : Nat) (kv : String × String) : List Char :=
  List.rightpad width ' ' (kv.1.toList ++ [':']) ++ ' ' :: kv.2.toList

/-- The text format. -/
def outputText (data : Dict String String) : List Char :=
  data.flatMap fun kv => registerLine (labelWidth data) kv ++ ['\n']

/-- The document of a dictionary of strings. -/
def registerDocument (data : Dict String String) : Value := .obj (data.map fun kv => (kv.1, .str kv.2))

/-- The JSON format. -/
def outputJson (data : Dict String String) : List Char := dumps (registerDocument data) ++ ['\n']

/-- `_output_registers`, as what it prints. -/
def outputRegisters (data : Dict String String) (fmt : OutputFormat) : List Char :=
  match fmt with
  | .json => outputJson data
  | .text => outputText data

example : String.ofList (outputText [("pcr4", "aa"), ("roothash", "bb")])
    = "pcr4:     aa\nroothash: bb\n" := by decide +kernel

/-! ## Reading -/

/-- A line, cut at its first colon; blanks behind the colon are padding. -/
def readLine (line : List Char) : String × String :=
  (String.ofList (line.takeWhile (· != ':')),
    String.ofList (((line.dropWhile (· != ':')).drop 1).dropWhile (· == ' ')))

/-- The registers on the lines of a text. -/
def readText (out : List Char) : Dict String String := ((out.splitOn '\n').dropLast).map readLine

/-- The registers in a JSON object of strings. -/
def readJson (out : List Char) : Option (Dict String String) :=
  match loads out with
  | some (.obj fields) => fields.mapM fun kv =>
      match kv.2 with
      | .str value => some (kv.1, value)
      | _ => none
  | _ => none

/-- A dictionary that can be printed on lines: no colon or line break in a name, no line break in a value,
nor a blank at its start. -/
def OnLines (data : Dict String String) : Prop :=
  ∀ kv ∈ data, ':' ∉ kv.1.toList ∧ '\n' ∉ kv.1.toList ∧ '\n' ∉ kv.2.toList ∧ kv.2.toList.head? ≠ some ' '

/-- Padding on the right adds blanks behind the text. -/
theorem rightpad_eq (width : Nat) (cs : List Char) :
    List.rightpad width ' ' cs = cs ++ List.replicate (width - cs.length) ' ' := rfl

/-- A printed line reads as the register it is for. -/
theorem readLine_registerLine (width : Nat) {kv : String × String} (hname : ':' ∉ kv.1.toList)
    (hvalue : kv.2.toList.head? ≠ some ' ') : readLine (registerLine width kv) = kv := by
  have hkey : ∀ c ∈ kv.1.toList, (c != ':') = true := by
    intro c hc
    rw [bne_iff_ne]
    rintro rfl
    exact hname hc
  have hline : registerLine width kv = kv.1.toList ++ ':' ::
      (List.replicate (width - (kv.1.toList ++ [':']).length) ' ' ++ ' ' :: kv.2.toList) := by
    rw [registerLine, rightpad_eq]
    simp only [List.append_assoc, List.cons_append, List.nil_append]
  have htake : (registerLine width kv).takeWhile (· != ':') = kv.1.toList := by
    rw [hline, List.takeWhile_append_of_pos hkey, List.takeWhile_cons_of_neg (by decide), List.append_nil]
  have hdrop : (registerLine width kv).dropWhile (· != ':') = ':' ::
      (List.replicate (width - (kv.1.toList ++ [':']).length) ' ' ++ ' ' :: kv.2.toList) := by
    rw [hline, List.dropWhile_append_of_pos hkey, List.dropWhile_cons_of_neg (by decide)]
  have hpadding : ∀ n, (List.replicate n ' ' ++ ' ' :: kv.2.toList).dropWhile (· == ' ') = kv.2.toList := by
    intro n
    have hblank : ∀ c ∈ List.replicate n ' ', (c == ' ') = true := by
      intro c hc
      rw [List.eq_of_mem_replicate hc]
      rfl
    rw [List.dropWhile_append_of_pos hblank, List.dropWhile_cons_of_pos (by rfl)]
    cases hcs : kv.2.toList with
    | nil => rfl
    | cons c cs =>
      rw [hcs, List.head?_cons] at hvalue
      have hc : ¬ (c == ' ') = true := fun h => hvalue (congrArg some (eq_of_beq h))
      exact List.dropWhile_cons_of_neg hc
  rw [readLine, htake, hdrop, List.drop_succ_cons, List.drop_zero, hpadding, String.ofList_toList,
    String.ofList_toList]

/-- Lines without breaks are found again. -/
theorem splitOn_flatMap_lines {lines : List (List Char)} (h : ∀ line ∈ lines, '\n' ∉ line) :
    (lines.flatMap fun line => line ++ ['\n']).splitOn '\n' = lines ++ [[]] := by
  induction lines with
  | nil => rfl
  | cons line lines ih =>
    obtain ⟨hline, hlines⟩ := List.forall_mem_cons.mp h
    rw [List.flatMap_cons, List.append_assoc, List.cons_append, List.nil_append,
      List.splitOn_append_cons_self_of_not_mem hline, ih hlines, List.cons_append]

/-- **Printed lines read as the dictionary they were printed from**, at any width. -/
theorem readText_lines (width : Nat) {data : Dict String String} (h : OnLines data) :
    readText (data.flatMap fun kv => registerLine width kv ++ ['\n']) = data := by
  have hbreak : ∀ line ∈ data.map (registerLine width), '\n' ∉ line := by
    rw [List.forall_mem_map]
    intro kv hkv hmem
    obtain ⟨-, hname, hvalue, -⟩ := h kv hkv
    rw [registerLine, rightpad_eq] at hmem
    simp only [List.mem_append, List.mem_cons, List.mem_replicate] at hmem
    rcases hmem with (((hmem | hmem | hmem) | hmem) | hmem | hmem)
    · exact hname hmem
    · cases hmem
    · cases hmem
    · exact absurd hmem.2 (by decide)
    · cases hmem
    · exact hvalue hmem
  have hlines : (data.flatMap fun kv => registerLine width kv ++ ['\n'])
      = (data.map (registerLine width)).flatMap fun line => line ++ ['\n'] := by
    rw [List.flatMap_map]
  rw [readText, hlines, splitOn_flatMap_lines hbreak, List.dropLast_concat, List.map_map]
  conv_rhs => rw [← List.map_id data]
  apply List.map_congr_left
  intro kv hkv
  obtain ⟨hname, -, -, hvalue⟩ := h kv hkv
  exact readLine_registerLine _ hname hvalue

/-- **The text reads as the dictionary it was printed from.** -/
theorem readText_outputText {data : Dict String String} (h : OnLines data) :
    readText (outputText data) = data :=
  readText_lines _ h

/-- **The JSON object reads as the dictionary it was printed from.** -/
theorem readJson_outputJson {data : Dict String String} (h : data.keys.Nodup) :
    readJson (outputJson data) = some data := by
  have hplain : Plain (registerDocument data) := by
    apply Plain.obj
    · rw [List.forall_mem_map]
      exact fun kv _ => Plain.str kv.2
    · rw [Dict.keys, List.map_map]
      exact h
  have hloads : loads (outputJson data) = some (registerDocument data) :=
    loads_dumps hplain (List.all_iff_forall_prop.mp (by decide))
  rw [readJson, hloads]
  simp only [registerDocument]
  clear hloads hplain h
  induction data with
  | nil => rfl
  | cons kv data ih => rw [List.map_cons, List.mapM_cons, ih]; rfl

end CvmMeasure.Cli
