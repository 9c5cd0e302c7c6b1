import CvmMeasure.Cli.Readable
import CvmMeasure.ReplayFold
import Mathlib.Data.List.Sort

/-! # Printed replays

`tdx replay` and `azure-snp replay` print one line for each register, in ascending order: all four RTMRs, and
the PCRs the log touches.

* `pairwise_touchedPcrs`, `mem_touchedPcrs`: the PCRs of a replay, sorted;
* **`replays_print_folds`**: what is printed reads as the folds of the digests of each register. -/

namespace CvmMeasure.Cli

open Binary Python Tcg

/-! ## Lines -/

/-- The name of a register in a replay. -/
def registerName (label : String) (register : Int) : String := label ++ toString register

/-- The characters of a number: digits, and maybe a sign. -/
theorem mem_toString_int {n : Int} {c : Char} (h : c ∈ (toString n).toList) : c = '-' ∨ c.isDigit := by
  rw [Int.toString_eq_repr, Int.repr_eq_if] at h
  split at h
  · rw [Nat.toList_repr] at h
    exact Or.inr (Nat.isDigit_of_mem_toDigits (by omega) (by omega) h)
  · rw [String.toList_append, List.mem_append, Nat.toList_repr] at h
    rcases h with h | h
    · exact Or.inl (by simpa using h)
    · exact Or.inr (Nat.isDigit_of_mem_toDigits (by omega) (by omega) h)

/-- The lines of a replay are lines of registers, without padding. -/
theorem replayLine_eq (label : String) (register : Int) (value : Bytes) :
    replayLine label register value
      = registerLine 0 (registerName label register, hex value) ++ ['\n'] := by
  rw [registerLine, rightpad_eq, registerName]
  have hcolon : (toString ": ").toList = [':', ' '] := by rfl
  have hbreak : (toString "\n").toList = ['\n'] := by rfl
  simp only [replayLine, String.toList_append, Nat.zero_sub, List.replicate_zero, List.append_nil, hcolon, hbreak,
    List.append_assoc, List.cons_append, List.nil_append]
  rfl

/-- **A replay reads as its registers.** -/
theorem readText_replayLines {label : String} (hlabel : ':' ∉ label.toList ∧ '\n' ∉ label.toList)
    (registers : List Int) (value : Int → Bytes) :
    readText (registers.flatMap fun i => replayLine label i (value i))
      = registers.map fun i => (registerName label i, hex (value i)) := by
  have hlines : (registers.flatMap fun i => replayLine label i (value i))
      = (registers.map fun i => (registerName label i, hex (value i))).flatMap
        fun kv => registerLine 0 kv ++ ['\n'] := by
    rw [List.flatMap_map]
    congr 1
    funext i
    exact replayLine_eq label i (value i)
  have hnumber : ∀ (i : Int) (c : Char), c ≠ '-' → c.isDigit = false → c ∉ label.toList →
      c ∉ (registerName label i).toList := by
    intro i c hsign hdigit hc hmem
    rw [registerName, String.toList_append, List.mem_append] at hmem
    rcases (hmem.resolve_left hc : c ∈ (toString i).toList) |> mem_toString_int with rfl | h
    · exact hsign rfl
    · exact Bool.false_ne_true (hdigit.symm.trans h)
  rw [hlines]
  apply readText_lines
  apply onLines_of
  · intro key hkey
    rw [Dict.keys, List.map_map, List.mem_map] at hkey
    obtain ⟨i, -, rfl⟩ := hkey
    exact ⟨hnumber i ':' (by decide) (by decide) hlabel.1, hnumber i '\n' (by decide) (by decide) hlabel.2⟩
  · rw [List.forall_mem_map]
    exact fun i _ => oneLine_hex (value i)

/-! ## The PCRs of a replay -/

/-- The PCRs a replay of the log holds, sorted. -/
def touchedPcrs (sha256 : Bytes → Bytes) (log : ParsedEventLog) (algoId : Nat) : List Int :=
  (AzureSnp.replayEventLog sha256 log algoId).keys.insertionSort (· ≤ ·)

variable {sha256 : Bytes → Bytes} {log : ParsedEventLog} {algoId : Nat}

/-- A replay holds each PCR once. -/
theorem nodup_keys_replayEventLog : (AzureSnp.replayEventLog sha256 log algoId).keys.Nodup := by
  have hstep : ∀ (events : List EventLogEntry) (pcrs : Dict Int Bytes), pcrs.keys.Nodup →
      (events.foldl (AzureSnp.replayStep sha256 algoId) pcrs).keys.Nodup := by
    intro events
    induction events with
    | nil => exact fun _ h => h
    | cons event events ih =>
      intro pcrs h
      apply ih
      unfold AzureSnp.replayStep
      cases AzureSnp.extendTarget algoId event with
      | none => exact h
      | some target => exact Dict.nodup_keys_set h target.1 _
  exact hstep log.events [] List.nodup_nil

/-- The PCRs are printed in increasing order. -/
theorem pairwise_touchedPcrs : (touchedPcrs sha256 log algoId).Pairwise (· < ·) := by
  apply List.SortedLT.pairwise
  apply List.SortedLE.sortedLT_of_nodup List.sortedLE_insertionSort
  exact (List.perm_insertionSort _ _).nodup_iff.mpr nodup_keys_replayEventLog

/-- The PCRs of a replay are those with a digest. -/
theorem mem_touchedPcrs {pcr : Int} :
    pcr ∈ touchedPcrs sha256 log algoId ↔ registerDigests algoId pcr log.events ≠ [] := by
  rw [touchedPcrs, List.mem_insertionSort, Dict.mem_keys_iff, replayEventLog_eq_fold]
  by_cases h : registerDigests algoId pcr log.events = []
  · rw [if_pos h]
    exact iff_of_false (fun hne => hne rfl) fun hne => hne h
  · rw [if_neg h]
    exact iff_of_true (Option.some_ne_none _) h

/-! ## Commands -/

section

variable {host : Host} {path : String} {effect : Effect}

/-- What `tdx replay` prints. -/
theorem readText_tdxReplay (h : run host (.tdxReplay path) = .ok effect) :
    ∃ data log, host.files path = some data ∧ Tdx.parseEventLog data = .ok log ∧
      readText effect.stdout = [0, 1, 2, 3].map fun i : Int => (registerName "rtmr" i,
        hex (Tdx.replayDigests host.sha384 (registerDigests tpmAlgSha384 i log.events))) := by
  simp only [run, cmdReplay, command_bind_eq_ok, requireFile_eq_ok, raising_eq_ok,
    command_pure_eq_ok] at h
  obtain ⟨data, hdata, log, hlog, rfl⟩ := h
  refine ⟨data, log, hdata, hlog, ?_⟩
  rw [← readText_replayLines (by decide)]
  apply congrArg readText
  simp only [Tdx.replayEventLog, replayEvents_eq_fold]
  rfl

/-- What `azure-snp replay` prints. -/
theorem readText_azureReplay (h : run host (.azureSnpReplay path) = .ok effect) :
    ∃ data log, host.files path = some data ∧ AzureSnp.parseEventLog data = .ok log ∧
      readText effect.stdout = (touchedPcrs host.sha256 log tpmAlgSha256).map fun i => (registerName "pcr" i,
        hex (AzureSnp.replayDigests host.sha256 (registerDigests tpmAlgSha256 i log.events))) := by
  simp only [run, cmdAzureReplay, command_bind_eq_ok, requireFile_eq_ok, raising_eq_ok,
    command_pure_eq_ok] at h
  obtain ⟨data, hdata, log, hlog, rfl⟩ := h
  refine ⟨data, log, hdata, hlog, ?_⟩
  rw [← readText_replayLines (by decide)]
  apply congrArg readText
  apply List.flatMap_congr
  intro i hi
  rw [replayEventLog_eq_fold, if_neg (mem_touchedPcrs.mp hi)]
  rfl

/-- **A printed replay reads as the folds of its registers.** `tdx replay` prints the four RTMRs, and
`azure-snp replay` exactly the PCRs that a measured event of the log extends, each once and in ascending
order; each value is the replay of the digests of that register alone. -/
theorem replays_print_folds :
    (run host (.tdxReplay path) = .ok effect → ∃ data log, host.files path = some data ∧
      Tdx.parseEventLog data = .ok log ∧
      readText effect.stdout = [0, 1, 2, 3].map fun i : Int => (registerName "rtmr" i,
        hex (Tdx.replayDigests host.sha384 (registerDigests tpmAlgSha384 i log.events)))) ∧
    (run host (.azureSnpReplay path) = .ok effect → ∃ data log, ∃ pcrs : List Int,
      host.files path = some data ∧ AzureSnp.parseEventLog data = .ok log ∧ pcrs.Pairwise (· < ·) ∧
      (∀ i, i ∈ pcrs ↔ registerDigests tpmAlgSha256 i log.events ≠ []) ∧
      readText effect.stdout = pcrs.map fun i => (registerName "pcr" i,
        hex (AzureSnp.replayDigests host.sha256 (registerDigests tpmAlgSha256 i log.events)))) := by
  refine ⟨readText_tdxReplay, fun h => ?_⟩
  obtain ⟨data, log, hdata, hlog, hread⟩ := readText_azureReplay h
  exact ⟨data, log, touchedPcrs host.sha256 log tpmAlgSha256, hdata, hlog, pairwise_touchedPcrs,
    fun i => mem_touchedPcrs, hread⟩

end

/-- A machine with one log of each kind. -/
def replayHost : Host :=
  { sampleHost with
    files := fun path =>
      if path = "ccel.bin" then some (Tdx.sampleCcel [])
      else if path = "eventlog.bin" then some AzureSnp.sampleLog.encode
      else none }

/-- The logs of that machine are replayed; the vTPM log touches PCR 7. -/
theorem replays_print_folds_sample : ∃ tdxEffect azureEffect log log', ∃ pcrs : List Int,
    run replayHost (.tdxReplay "ccel.bin") = .ok tdxEffect ∧
    run replayHost (.azureSnpReplay "eventlog.bin") = .ok azureEffect ∧
    Tdx.parseEventLog (Tdx.sampleCcel []) = .ok log ∧
    AzureSnp.parseEventLog AzureSnp.sampleLog.encode = .ok log' ∧
    readText tdxEffect.stdout = ([0, 1, 2, 3].map fun i : Int => (registerName "rtmr" i,
      hex (Tdx.replayDigests (Hash.sampleHash 48) (registerDigests tpmAlgSha384 i log.events)))) ∧
    7 ∈ pcrs ∧
    readText azureEffect.stdout = pcrs.map fun i => (registerName "pcr" i,
      hex (AzureSnp.replayDigests (Hash.sampleHash 32) (registerDigests tpmAlgSha256 i log'.events))) := by
  obtain ⟨log, hlog⟩ : ∃ log, Tdx.parseEventLog (Tdx.sampleCcel []) = .ok log :=
    exists_of_isOk (by decide +kernel)
  have hlog' : AzureSnp.parseEventLog AzureSnp.sampleLog.encode
      = .ok ⟨AzureSnp.sampleLog.digestSizes, AzureSnp.sampleLog.entries⟩ := by decide +kernel
  obtain ⟨tdxEffect, htdx⟩ : ∃ effect, run replayHost (.tdxReplay "ccel.bin") = .ok effect := by
    simp only [run, cmdReplay, command_bind_eq_ok, requireFile_eq_ok, raising_eq_ok]
    exact ⟨_, _, rfl, log, hlog, rfl⟩
  obtain ⟨azureEffect, hazure⟩ : ∃ effect, run replayHost (.azureSnpReplay "eventlog.bin") = .ok effect := by
    simp only [run, cmdAzureReplay, command_bind_eq_ok, requireFile_eq_ok, raising_eq_ok]
    exact ⟨_, _, rfl, _, hlog', rfl⟩
  obtain ⟨data, log₁, hdata, hlog₁, hread⟩ := replays_print_folds.1 htdx
  obtain rfl := Option.some.inj hdata
  obtain rfl := ok_unique hlog₁ hlog
  obtain ⟨data, log₂, pcrs, hdata, hlog₂, hsorted, hmem, hread'⟩ := replays_print_folds.2 hazure
  obtain rfl := Option.some.inj hdata
  obtain rfl := ok_unique hlog₂ hlog'
  refine ⟨tdxEffect, azureEffect, log₁, _, pcrs, htdx, hazure, hlog₁, hlog₂, hread, ?_, hread'⟩
  rw [hmem]
  decide +kernel

end CvmMeasure.Cli
