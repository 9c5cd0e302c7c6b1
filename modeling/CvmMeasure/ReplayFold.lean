import CvmMeasure.AzureSnp.Registers
import CvmMeasure.Sequence.Interleaving
import CvmMeasure.Tdx.Rtmr

/-! # A replay is a fold for each register

Both replay loops update all registers at once, skipping events on the way; the register recipes fold
the digests of one register at a time. The two are the same computation, so that it only matters in
which order the events of one register stand.

* **`registerDigests`**: the digests of one register, in log order;
* **`replay_is_fold`**: every register a replay returns is the fold of its digests, on both platforms,
  and two interleavings of the same register sequences replay alike. -/

namespace CvmMeasure

open Binary Python Tcg Sequence

/-- The digests of the algorithm that the measured events of a register carry, in log order. -/
def registerDigests (algoId : Nat) (register : Int) (events : List EventLogEntry) : List Bytes :=
  (events.filter fun e : EventLogEntry =>
    e.registerIndex == register && e.eventType != evNoAction).filterMap fun e => e.digest? algoId

/-- They are read off the events of the register. -/
theorem registerDigests_eq (algoId : Nat) (register : Int) (events : List EventLogEntry) :
    registerDigests algoId register events
      = ((events.filter fun e => e.registerIndex = register).filter
          fun e => e.eventType != evNoAction).filterMap fun e => e.digest? algoId := by
  rw [registerDigests, List.filter_filter]
  congr 2
  funext e
  rw [Bool.and_comm]
  rfl

/-- The same, event by event. -/
theorem registerDigests_cons (algoId : Nat) (register : Int) (e : EventLogEntry)
    (events : List EventLogEntry) :
    registerDigests algoId register (e :: events)
      = (if e.registerIndex = register ∧ e.eventType ≠ evNoAction then (e.digest? algoId).toList else [])
        ++ registerDigests algoId register events := by
  unfold registerDigests
  by_cases h : e.registerIndex = register ∧ e.eventType ≠ evNoAction
  · rw [if_pos h, List.filter_cons_of_pos (by simp [h])]
    cases hd : e.digest? algoId with
    | none => simp [hd]
    | some d => simp [hd]
  · rw [if_neg h, List.filter_cons_of_neg (by simpa using h)]
    rfl

/-- **The digests of a register only depend on the order of its own events.** -/
theorem registerDigests_interleaves {algoId : Nat} {seqs : Int → List EventLogEntry}
    {log log' : List EventLogEntry} (hkey : ∀ i, ∀ e ∈ seqs i, e.registerIndex = i)
    (h : Interleaves seqs log) (h' : Interleaves seqs log') (register : Int) :
    registerDigests algoId register log = registerDigests algoId register log' := by
  rw [registerDigests_eq, registerDigests_eq, h.filter_eq hkey, h'.filter_eq hkey]

/-! ## The two replays -/

/-- One RTMR, as the fold of its digests. -/
theorem replayEvents_eq_fold (sha384 : Bytes → Bytes) (events : List EventLogEntry) (algoId : Nat)
    (i : Fin Tdx.numRtmrs) : Tdx.replayEvents sha384 events algoId i
      = Tdx.replayDigests sha384 (registerDigests algoId i events) := by
  rw [Tdx.replayEvents_apply, Tdx.rtmrDigests_eq_filterMap]
  rfl

/-- The extends of a vTPM replay on one PCR. -/
theorem digestsOf_replayExtends (algoId : Nat) (pcr : Int) (events : List EventLogEntry) :
    AzureSnp.digestsOf pcr (AzureSnp.replayExtends algoId events)
      = registerDigests algoId pcr events := by
  induction events with
  | nil => rfl
  | cons e events ih =>
    rw [registerDigests_cons, ← ih, AzureSnp.replayExtends]
    by_cases htype : e.eventType = evNoAction
    · have hnone : AzureSnp.extendTarget algoId e = none := if_pos htype
      rw [List.filterMap_cons_none hnone, if_neg fun h => h.2 htype]
      rfl
    · cases hd : e.digest? algoId with
      | none =>
        have hnone : AzureSnp.extendTarget algoId e = none := by
          rw [AzureSnp.extendTarget, if_neg htype, hd, Option.map_none]
        rw [List.filterMap_cons_none hnone]
        simp [AzureSnp.replayExtends]
      | some d =>
        have hsome : AzureSnp.extendTarget algoId e = some (e.registerIndex, d) := by
          rw [AzureSnp.extendTarget, if_neg htype, hd, Option.map_some]
        rw [List.filterMap_cons_some hsome, AzureSnp.digestsOf, List.filter_cons]
        -- the event is on the register, or on another one
        by_cases hreg : e.registerIndex = pcr
        · simp [hreg, htype, AzureSnp.digestsOf, AzureSnp.replayExtends]
        · simp [hreg, AzureSnp.digestsOf, AzureSnp.replayExtends]

/-- One PCR, as the fold of its digests. -/
theorem replayEventLog_eq_fold (sha256 : Bytes → Bytes) (parsed : ParsedEventLog) (algoId : Nat)
    (pcr : Int) : (AzureSnp.replayEventLog sha256 parsed algoId).get? pcr =
      if registerDigests algoId pcr parsed.events = [] then none
      else some (AzureSnp.replayDigests sha256 (registerDigests algoId pcr parsed.events)) := by
  rw [AzureSnp.replayEventLog_get?, digestsOf_replayExtends]
  rfl

/-- **A replay is an independent fold for each register.** Each RTMR is `replay_digests` of the digests
of its events, each PCR with a digest is, and no other PCR is returned. Two logs that interleave the
same sequences, one for each register, therefore replay to the same registers. -/
theorem replay_is_fold (sha384 sha256 : Bytes → Bytes) (algoId : Nat) :
    (∀ events (i : Fin Tdx.numRtmrs), Tdx.replayEvents sha384 events algoId i
      = Tdx.replayDigests sha384 (registerDigests algoId i events)) ∧
    (∀ parsed pcr, (AzureSnp.replayEventLog sha256 parsed algoId).get? pcr =
      if registerDigests algoId pcr parsed.events = [] then none
      else some (AzureSnp.replayDigests sha256 (registerDigests algoId pcr parsed.events))) ∧
    (∀ (seqs : Int → List EventLogEntry) (log log' : ParsedEventLog),
      (∀ i, ∀ e ∈ seqs i, e.registerIndex = i) →
      Interleaves seqs log.events → Interleaves seqs log'.events →
      Tdx.replayEventLog sha384 log algoId = Tdx.replayEventLog sha384 log' algoId ∧
      ∀ pcr, (AzureSnp.replayEventLog sha256 log algoId).get? pcr
        = (AzureSnp.replayEventLog sha256 log' algoId).get? pcr) := by
  refine ⟨fun events i => replayEvents_eq_fold sha384 events algoId i,
    fun parsed pcr => replayEventLog_eq_fold sha256 parsed algoId pcr, ?_⟩
  intro seqs log log' hkey h h'
  constructor
  · funext i
    show Tdx.replayEvents sha384 log.events algoId i = Tdx.replayEvents sha384 log'.events algoId i
    rw [replayEvents_eq_fold, replayEvents_eq_fold, registerDigests_interleaves hkey h h']
  · intro pcr
    rw [replayEventLog_eq_fold, replayEventLog_eq_fold, registerDigests_interleaves hkey h h']

/-- An event on register zero, and one on register one. -/
def sampleSeqs (i : Int) : List EventLogEntry :=
  if i = 0 then [⟨0, 0, 4, [(tpmAlgSha384, [0xAA])], []⟩]
  else if i = 1 then [⟨1, 1, 4, [(tpmAlgSha384, [0xBB])], []⟩]
  else []

/-- Their two interleavings replay alike. -/
theorem replay_is_fold_sample : Tdx.replayEventLog (Hash.sampleHash 48)
      ⟨[], [⟨0, 0, 4, [(tpmAlgSha384, [0xAA])], []⟩, ⟨1, 1, 4, [(tpmAlgSha384, [0xBB])], []⟩]⟩ tpmAlgSha384
    = Tdx.replayEventLog (Hash.sampleHash 48)
      ⟨[], [⟨1, 1, 4, [(tpmAlgSha384, [0xBB])], []⟩, ⟨0, 0, 4, [(tpmAlgSha384, [0xAA])], []⟩]⟩
        tpmAlgSha384 := by
  have hkey : ∀ i, ∀ e ∈ sampleSeqs i, e.registerIndex = i := by
    intro i e he
    unfold sampleSeqs at he
    by_cases h0 : i = 0
    · simp [h0] at he
      simp [he, h0]
    · by_cases h1 : i = 1
      · simp [h1] at he
        simp [he, h1]
      · simp [h0, h1] at he
  refine ((replay_is_fold (Hash.sampleHash 48) (Hash.sampleHash 32) tpmAlgSha384).2.2 sampleSeqs _ _
    hkey ?_ ?_).1
  · refine (interleaves_iff hkey).mpr fun i => ?_
    by_cases h0 : i = 0 <;> by_cases h1 : i = 1 <;> simp [sampleSeqs, h0, h1, eq_comm]
  · refine (interleaves_iff hkey).mpr fun i => ?_
    by_cases h0 : i = 0 <;> by_cases h1 : i = 1 <;> simp [sampleSeqs, h0, h1, eq_comm]

end CvmMeasure
