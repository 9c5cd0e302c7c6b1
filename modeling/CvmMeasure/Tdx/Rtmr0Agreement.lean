import CvmMeasure.Tdx.Rtmr0Slots

/-! # Computing RTMR[0] against replaying it

A register can be replayed from a log, or a baseline can be extracted from the log and the register
computed from it. For RTMR[0] the two agree exactly on the logs whose digests stand in the slots of the
computation; a log that is not in slots is accepted all the same.

* **`InSlots`**: the RTMR[0] digests of a log, in order, are those of the slots;
* **`computeRtmr0_agrees_iff`**: whenever both ways return, they agree on the logs in slots, and on no
  other unless the hash inputs exhibit a collision;
* **`computeRtmr0_accepts_bare`**: a log without a single computable event is accepted. -/

namespace CvmMeasure.Tdx

open Binary Python Tcg Hash

/-! ## Logs in slots -/

/-- The digests of a log that RTMR[0] is extended with. -/
def rtmr0LogDigests (log : ParsedEventLog) : List Bytes :=
  (log.eventsFor 0).filterMap fun e => e.digest? tpmAlgSha384

/-- The register RTMR[0]. -/
def rtmr0 : Fin numRtmrs := ⟨0, by decide⟩

/-- Replaying a log extends RTMR[0] with these digests. -/
theorem replayEventLog_rtmr0 (sha384 : Bytes → Bytes) (log : ParsedEventLog) :
    replayEventLog sha384 log tpmAlgSha384 rtmr0 = replayDigests sha384 (rtmr0LogDigests log) := by
  rw [replayEventLog, replayEvents_apply, rtmrDigests_eq_filterMap]
  rfl

/-- The flag of the log's last SecureBoot event. -/
def logSecurebootFlag (log : ParsedEventLog) : Bool := securebootFlagAfter false (log.eventsFor 0)

/-- Every digest of the log stands in its slot, and every slot is filled. -/
def InSlots (sha384 : Bytes → Bytes) (cfv : Bytes) (log : ParsedEventLog) : Prop :=
  (rtmr0LogDigests log).map some
    = rtmr0Slots.map (slotDigest sha384 cfv (logSecurebootFlag log) (storedEvents log 0))

/-- The stored events of a parsed log carry digests of the register's width. -/
theorem hasSha384_of_stored {ccelData : Bytes} {log : ParsedEventLog}
    (hlog : parseEventLog ccelData = .ok log) {rtmr : Int} :
    ∀ e ∈ storedEvents log rtmr, HasSha384 e := by
  obtain ⟨tcgLog, -, -, -, -, -, rfl⟩ := parseEventLog_ok_iff.mp hlog
  intro e he
  obtain ⟨hevent, hstored⟩ := List.mem_filter.mp he
  have hmem : e ∈ tcgLog.entries := (List.mem_filter.mp hevent).1
  rw [isStored, Bool.and_eq_true] at hstored
  obtain ⟨d, hd⟩ := Option.isSome_iff_exists.mp hstored.1
  exact ⟨d, hd, tcgLog.digest_length hmem (show _ = some sha384Size from rfl) hd⟩

/-- **The digests computed from an extracted baseline** are those of the slots. -/
theorem computeRtmr0_extracted (sha384 : Bytes → Bytes) {ccelData firmware cfv : Bytes}
    {machineType : String} {log : ParsedEventLog} {b : Baseline}
    (hlog : parseEventLog ccelData = .ok log)
    (hextract : extractFromCcel ccelData machineType = .ok b)
    (hcheck : checkRtmr0Events b.machineType (b.rtmrEvents 0) = .ok ())
    (hcfv : cfvImage firmware = .ok cfv) :
    ∃ ds, rtmr0Digests sha384 firmware b = .ok ds ∧
      ds.map some
        = rtmr0Slots.map (slotDigest sha384 cfv (logSecurebootFlag log) (storedEvents log 0)) := by
  obtain ⟨log', hlog', -, hflag, hevents⟩ := extractFromCcel_eq_ok hextract
  obtain rfl : log' = log := ok_unique hlog' hlog
  rw [logSecurebootFlag, ← hflag]
  exact rtmr0Digests_stored sha384 (hevents 0) (hasSha384_of_stored hlog) hcheck hcfv

/-! ## Both ways to RTMR[0] -/

/-- Logs in slots: the value computed from the extracted baseline is the value replayed. -/
theorem computeRtmr0_of_inSlots (sha384 : Bytes → Bytes) {ccelData firmware cfv : Bytes}
    {machineType : String} {log : ParsedEventLog} {b : Baseline}
    (hlog : parseEventLog ccelData = .ok log)
    (hextract : extractFromCcel ccelData machineType = .ok b)
    (hcheck : checkRtmr0Events b.machineType (b.rtmrEvents 0) = .ok ())
    (hcfv : cfvImage firmware = .ok cfv) (hslots : InSlots sha384 cfv log) :
    computeRtmr0 sha384 firmware b
      = .ok (hex (replayEventLog sha384 log tpmAlgSha384 rtmr0)) := by
  obtain ⟨ds, hds, hmap⟩ := computeRtmr0_extracted sha384 hlog hextract hcheck hcfv
  have heq : ds = rtmr0LogDigests log :=
    List.map_injective_iff.mpr (Option.some_injective _) (hmap.trans hslots.symm)
  rw [computeRtmr0, hds, ok_bind, replayEventLog_rtmr0, heq]
  rfl

/-! ## A log without computable events -/

/-- An RTMR[0] record with one SHA-384 digest of a repeated byte. -/
def rtmr0Record (eventType : Nat) (eventData : Bytes) (digestByte : UInt8) : Event2Record :=
  ⟨1, eventType, [(tpmAlgSha384, List.replicate sha384Size digestByte)], eventData⟩

/-- The data of a variable without content. -/
def emptyVariable (name : String) : Bytes := buildUefiVariableData efiGlobalVariableGuid name []

/-- The events of the supported firmware up to the separator that a baseline stores. -/
def fixedRecords : List Event2Record :=
  [rtmr0Record evEfiHandoffTables2 [] 0x01,
    rtmr0Record evEfiVariableDriverConfig (emptyVariable "PK") 0x02,
    rtmr0Record evEfiVariableDriverConfig (emptyVariable "KEK") 0x03,
    rtmr0Record evEfiVariableDriverConfig (emptyVariable "db") 0x04,
    rtmr0Record evEfiVariableDriverConfig (emptyVariable "dbx") 0x05]

/-- The events behind the separator. -/
def trailingRecords : List Event2Record :=
  [rtmr0Record evPlatformConfigFlags [] 0x06, rtmr0Record evPlatformConfigFlags [] 0x07,
    rtmr0Record evPlatformConfigFlags [] 0x08,
    rtmr0Record evEfiVariableBoot (emptyVariable "BootOrder") 0x09,
    rtmr0Record evEfiVariableBoot (emptyVariable "Boot0001") 0x0A,
    rtmr0Record evEfiVariableBoot (emptyVariable "Boot0002") 0x0B,
    rtmr0Record evEfiVariableBoot (emptyVariable "Boot0003") 0x0C,
    rtmr0Record evEfiVariableBoot (emptyVariable "Boot0000") 0x0D]

/-- A CCEL of the given records behind a SpecIdEvent. -/
def sampleCcel (records : List Event2Record) : Bytes :=
  sampleLog.spec.encode ++ records.flatMap Event2Record.encode

/-- The events of that CCEL. -/
def sampleCcelLog (records : List Event2Record) : ParsedEventLog :=
  ⟨sampleLog.digestSizes, sampleLog.spec.toEntry ccelRegister :: entriesFrom ccelRegister 1 records⟩

/-- An image with one small configuration volume. -/
def sampleCfvFirmware : Bytes := sampleFirmware [⟨0, 4, 0, 16, tdxSectionCfv, 0⟩]

/-- That volume: the file's first four bytes, zero-filled. -/
def sampleCfv : Bytes := [0xF3, 0xF9, 0xEA, 0xE9] ++ List.replicate 12 0x00

/-- The configuration volume of the image. -/
theorem cfvImage_sampleCfvFirmware : cfvImage sampleCfvFirmware = .ok sampleCfv := by decide +kernel

/-- A log with the thirteen stored events only: no firmware blob, no SecureBoot variable, and no
separator. -/
def bareCcel : Bytes := sampleCcel (fixedRecords ++ trailingRecords)

/-- Its events. -/
def bareLog : ParsedEventLog := sampleCcelLog (fixedRecords ++ trailingRecords)

/-- That log is accepted, -/
theorem parseEventLog_bareCcel : parseEventLog bareCcel = .ok bareLog := by decide +kernel

/-- The baseline extracted from that log. -/
def bareBaseline : Baseline := bareLog.measurableEvents.foldl extractStep (emptyBaseline "")

/-- and a baseline is extracted from it. -/
theorem extractFromCcel_bareCcel : extractFromCcel bareCcel "" = .ok bareBaseline := by
  rw [extractFromCcel, parseEventLog_bareCcel]
  rfl

/-- That baseline passes the checks of the tool. -/
theorem checkRtmr0Events_bare :
    checkRtmr0Events bareBaseline.machineType (bareBaseline.rtmrEvents 0) = .ok () := by
  decide +kernel

/-- The tool computes a value from that baseline. -/
theorem computeRtmr0_bare (sha384 : Bytes → Bytes) :
    ∃ ds, computeRtmr0 sha384 sampleCfvFirmware bareBaseline
        = .ok (hex (replayDigests sha384 ds)) ∧
      ds.map some = rtmr0Slots.map
        (slotDigest sha384 sampleCfv (logSecurebootFlag bareLog) (storedEvents bareLog 0)) := by
  obtain ⟨ds, hds, hmap⟩ := computeRtmr0_extracted sha384 parseEventLog_bareCcel
    extractFromCcel_bareCcel checkRtmr0Events_bare cfvImage_sampleCfvFirmware
  refine ⟨ds, ?_, hmap⟩
  rw [computeRtmr0, hds]
  rfl

/-! ## When they agree -/

/-- **When computing and replaying RTMR[0] agree.** Whenever extraction and computation both return,
the computed value is the replayed one for a log in slots; for any other log it is not, unless the
hash inputs of the two chains contain a collision or one of them hashes to all zeros. -/
theorem computeRtmr0_agrees_iff {sha384 : Bytes → Bytes} (hlen : ∀ x, (sha384 x).length = sha384Size)
    {ccelData firmware : Bytes} {machineType value : String} {log : ParsedEventLog} {b : Baseline}
    (hlog : parseEventLog ccelData = .ok log)
    (hextract : extractFromCcel ccelData machineType = .ok b)
    (hcompute : computeRtmr0 sha384 firmware b = .ok value) :
    ∃ cfv ds, cfvImage firmware = .ok cfv ∧ rtmr0Digests sha384 firmware b = .ok ds ∧
      (InSlots sha384 cfv log →
        value = hex (replayEventLog sha384 log tpmAlgSha384 rtmr0)) ∧
      (value = hex (replayEventLog sha384 log tpmAlgSha384 rtmr0) →
        InSlots sha384 cfv log ∨
          Collision sha384 (replayInputs sha384 zeroRtmr ds
            ++ replayInputs sha384 zeroRtmr (rtmr0LogDigests log)) ∨
          ∃ x ∈ replayInputs sha384 zeroRtmr ds
            ++ replayInputs sha384 zeroRtmr (rtmr0LogDigests log), sha384 x = zeroRtmr) := by
  simp only [computeRtmr0, bind_eq_ok, pure_eq_ok] at hcompute
  obtain ⟨ds, hds, rfl⟩ := hcompute
  have hparts := hds
  simp only [rtmr0Digests, bind_eq_ok] at hparts
  obtain ⟨_, hcheck, cfv, hcfv, -⟩ := hparts
  obtain ⟨ds', hds', hmap⟩ := computeRtmr0_extracted sha384 hlog hextract hcheck hcfv
  obtain rfl : ds = ds' := ok_unique hds hds'
  -- the digests computed are those of the slots, so being in slots is being equal to them
  have hslots : InSlots sha384 cfv log ↔ ds = rtmr0LogDigests log := by
    rw [InSlots, ← hmap, eq_comm]
    exact (List.map_injective_iff.mpr (Option.some_injective _)).eq_iff
  refine ⟨cfv, ds, hcfv, hds, fun h => ?_, fun h => ?_⟩
  · rw [replayEventLog_rtmr0, hslots.mp h]
  · rw [replayEventLog_rtmr0] at h
    rcases replay_binding hlen (List.length_replicate ..) ds _ (hex_injective h) with heq | hfailure
    · exact Or.inl (hslots.mpr heq)
    · exact Or.inr hfailure

/-- On that log, the condition and what fails without it. -/
theorem computeRtmr0_agrees_iff_sample :
    ∃ value cfv ds, cfvImage sampleCfvFirmware = .ok cfv ∧
      rtmr0Digests (sampleHash 48) sampleCfvFirmware bareBaseline = .ok ds ∧
      (InSlots (sampleHash 48) cfv bareLog →
        value = hex (replayEventLog (sampleHash 48) bareLog tpmAlgSha384 rtmr0)) ∧
      (value = hex (replayEventLog (sampleHash 48) bareLog tpmAlgSha384 rtmr0) →
        InSlots (sampleHash 48) cfv bareLog ∨
          Collision (sampleHash 48) (replayInputs (sampleHash 48) zeroRtmr ds
            ++ replayInputs (sampleHash 48) zeroRtmr (rtmr0LogDigests bareLog)) ∨
          ∃ x ∈ replayInputs (sampleHash 48) zeroRtmr ds
            ++ replayInputs (sampleHash 48) zeroRtmr (rtmr0LogDigests bareLog),
            sampleHash 48 x = zeroRtmr) := by
  obtain ⟨ds, hvalue, -⟩ := computeRtmr0_bare (sampleHash 48)
  exact ⟨_, computeRtmr0_agrees_iff (length_sampleHash 48) parseEventLog_bareCcel
    extractFromCcel_bareCcel hvalue⟩

/-! ## Accepted all the same -/

/-- Every RTMR[0] event of the log that the tool treats as computable carries the digest the tool
computes for it. -/
def ComputablesMatch (sha384 : Bytes → Bytes) (cfv : Bytes) (enabled : Bool) (log : ParsedEventLog) :
    Prop :=
  ∀ e ∈ log.eventsFor 0,
    (e.eventType = evEfiPlatformFirmwareBlob2 → e.digest? tpmAlgSha384 = some (sha384 cfv)) ∧
    (isSecureBootVariable e = true →
      e.digest? tpmAlgSha384 = some (securebootDigest sha384 enabled)) ∧
    (e.eventType = evSeparator → e.digest? tpmAlgSha384 = some (separatorDigest sha384))

/-- What is asked of the tool on one log and firmware: refuse, or compute the replayed value. -/
def RefusesOrAgrees (sha384 : Bytes → Bytes) (ccelData firmware : Bytes) (machineType : String) :
    Prop :=
  ∀ log b cfv value, parseEventLog ccelData = .ok log → extractFromCcel ccelData machineType = .ok b →
    cfvImage firmware = .ok cfv → computeRtmr0 sha384 firmware b = .ok value →
    ComputablesMatch sha384 cfv b.securebootEnabled log →
    value = hex (replayEventLog sha384 log tpmAlgSha384 rtmr0)

/-- A log without computable events matches the computed digests, whatever they are. -/
theorem computablesMatch_of_none {sha384 : Bytes → Bytes} {cfv : Bytes} {enabled : Bool}
    {log : ParsedEventLog} (h : ∀ e ∈ log.eventsFor 0, isComputable 0 e = false) :
    ComputablesMatch sha384 cfv enabled log := by
  intro e he
  have hcomp := h e he
  refine ⟨fun htype => ?_, fun hvar => ?_, fun htype => ?_⟩
  · rw [isComputable, htype] at hcomp
    exact absurd hcomp (by simp [computable])
  · simp [isComputable, hvar] at hcomp
  · rw [isComputable, htype] at hcomp
    exact absurd hcomp (by simp [computable])

/-- **A log without its computable events slips through.** Its baseline passes every check, and with
the small hash the value computed is not the one replayed. With any hash of the register's width the
tool returns a value, and were it the replayed one, the hash inputs would contain a collision or one
hashing to all zeros. -/
theorem computeRtmr0_accepts_bare :
    ¬ RefusesOrAgrees (sampleHash 48) bareCcel sampleCfvFirmware "" ∧
    ∀ sha384 : Bytes → Bytes, (∀ x, (sha384 x).length = sha384Size) →
      ∃ cfv ds, cfvImage sampleCfvFirmware = .ok cfv ∧
        ComputablesMatch sha384 cfv bareBaseline.securebootEnabled bareLog ∧
        computeRtmr0 sha384 sampleCfvFirmware bareBaseline = .ok (hex (replayDigests sha384 ds)) ∧
        (hex (replayDigests sha384 ds) = hex (replayEventLog sha384 bareLog tpmAlgSha384 rtmr0) →
          Collision sha384 (replayInputs sha384 zeroRtmr ds
            ++ replayInputs sha384 zeroRtmr (rtmr0LogDigests bareLog)) ∨
          ∃ x ∈ replayInputs sha384 zeroRtmr ds
            ++ replayInputs sha384 zeroRtmr (rtmr0LogDigests bareLog), sha384 x = zeroRtmr) := by
  have hnone : ∀ e ∈ bareLog.eventsFor 0, isComputable 0 e = false := by decide +kernel
  refine ⟨fun h => ?_, fun sha384 hlen => ?_⟩
  -- the small hash: evaluate both chains
  · obtain ⟨ds, hvalue, hmap⟩ := computeRtmr0_bare (sampleHash 48)
    have heq := hex_injective (h _ _ _ _ parseEventLog_bareCcel extractFromCcel_bareCcel
      cfvImage_sampleCfvFirmware hvalue
      (computablesMatch_of_none hnone))
    have hds' : ds = (rtmr0Slots.map (slotDigest (sampleHash 48) sampleCfv
        (logSecurebootFlag bareLog) (storedEvents bareLog 0))).filterMap id := by
      rw [← hmap]
      simp
    rw [replayEventLog_rtmr0, hds'] at heq
    exact absurd heq (by decide +kernel)
  · obtain ⟨ds, hvalue, hmap⟩ := computeRtmr0_bare sha384
    refine ⟨_, ds, cfvImage_sampleCfvFirmware, computablesMatch_of_none hnone, hvalue, fun h => ?_⟩
    rw [replayEventLog_rtmr0] at h
    rcases replay_binding hlen (List.length_replicate ..) ds _ (hex_injective h) with heq | hfailure
    · -- thirteen digests against sixteen
      have hcount := congrArg List.length hmap
      rw [heq, List.length_map, List.length_map] at hcount
      exact absurd hcount (by decide +kernel)
    · exact hfailure

end CvmMeasure.Tdx
