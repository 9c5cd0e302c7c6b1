import CvmMeasure.Tdx.Extraction
import CvmMeasure.Tdx.Registers
import CvmMeasure.Tdx.Rtmr0Agreement

/-! # What a baseline takes from its log

Two boots of one machine log the same measurements of RTMR[0] and RTMR[1], but not the same bytes: events of
different registers interleave differently, the guest goes on measuring into RTMR[2] and RTMR[3], and a log
may carry digests of further algorithms. None of that reaches the registers computed from the baseline.

* **`SameBoot`**: two logs record the same on RTMR[0] and RTMR[1];
* **`computeAll_congr`**: what `compute_all` uses of a baseline;
* **`same_boot_same_registers`**: baselines of such logs give one result, or one refusal. -/

namespace CvmMeasure.Tdx

open Binary Python Tcg Hash

/-! ## Two logs -/

/-- What a baseline can see of an event: its type, its SHA-384 digest and its data. -/
def recorded (e : EventLogEntry) : Nat × Option Bytes × Bytes :=
  (e.eventType, e.digest? tpmAlgSha384, e.eventData)

/-- The registers that a baseline is used for. -/
def baselineRtmrs : List Int := [0, 1]

/-- **The logs record the same on RTMR[0] and RTMR[1].** -/
def SameBoot (log log' : ParsedEventLog) : Prop :=
  ∀ rtmr ∈ baselineRtmrs, (log.eventsFor rtmr).map recorded = (log'.eventsFor rtmr).map recorded

section

variable {e e' : EventLogEntry}

/-- The same is recorded of events with the same type, SHA-384 digest and data. -/
theorem recorded_eq_iff : recorded e = recorded e' ↔ e.eventType = e'.eventType ∧
    e.digest? tpmAlgSha384 = e'.digest? tpmAlgSha384 ∧ e.eventData = e'.eventData := by
  simp [recorded]

/-- Of such events both are the SecureBoot variable, or neither is; -/
theorem isSecureBootVariable_congr (h : recorded e = recorded e') :
    isSecureBootVariable e = isSecureBootVariable e' := by
  obtain ⟨htype, -, hdata⟩ := recorded_eq_iff.mp h
  rw [isSecureBootVariable, isSecureBootVariable, htype, hdata]

/-- both are stored, or neither is; -/
theorem isStored_congr (h : recorded e = recorded e') (rtmr : Int) : isStored rtmr e = isStored rtmr e' := by
  obtain ⟨htype, hdigest, -⟩ := recorded_eq_iff.mp h
  rw [isStored, isStored, isComputable, isComputable, htype, hdigest, isSecureBootVariable_congr h]

/-- and they leave the same event in a baseline. -/
theorem toBaselineEvent_congr (h : recorded e = recorded e') (rtmr : Int) :
    toBaselineEvent rtmr e = toBaselineEvent rtmr e' := by
  obtain ⟨htype, hdigest, hdata⟩ := recorded_eq_iff.mp h
  have hname : e.eventTypeName = e'.eventTypeName := by
    rw [EventLogEntry.eventTypeName, EventLogEntry.eventTypeName, htype]
  rw [toBaselineEvent, toBaselineEvent, labelForEvent, labelForEvent, htype, hdigest, hdata, hname]

end

/-- The events kept of a register, from what is recorded. -/
theorem storedEvents_congr (rtmr : Int) {events events' : List EventLogEntry}
    (h : events.map recorded = events'.map recorded) :
    (events.filter (isStored rtmr)).map (toBaselineEvent rtmr)
      = (events'.filter (isStored rtmr)).map (toBaselineEvent rtmr) := by
  induction events generalizing events' with
  | nil =>
    rw [List.map_nil, eq_comm, List.map_eq_nil_iff] at h
    rw [h]
  | cons e events ih =>
    cases events' with
    | nil => cases h
    | cons e' events' =>
      rw [List.map_cons, List.map_cons, List.cons.injEq] at h
      by_cases hstored : isStored rtmr e = true
      · rw [List.filter_cons_of_pos hstored, List.filter_cons_of_pos (isStored_congr h.1 rtmr ▸ hstored),
          List.map_cons, List.map_cons, toBaselineEvent_congr h.1, ih h.2]
      · rw [List.filter_cons_of_neg hstored, List.filter_cons_of_neg (isStored_congr h.1 rtmr ▸ hstored), ih h.2]

/-- The flag behind the events of RTMR[0], from what is recorded. -/
theorem securebootFlagAfter_congr {events events' : List EventLogEntry}
    (h : events.map recorded = events'.map recorded) (h0 : ∀ e ∈ events, e.registerIndex = 0)
    (h0' : ∀ e ∈ events', e.registerIndex = 0) (flag : Bool) :
    securebootFlagAfter flag events = securebootFlagAfter flag events' := by
  induction events generalizing events' flag with
  | nil =>
    rw [List.map_nil, eq_comm, List.map_eq_nil_iff] at h
    rw [h]
  | cons e events ih =>
    cases events' with
    | nil => cases h
    | cons e' events' =>
      rw [List.map_cons, List.map_cons, List.cons.injEq] at h
      obtain ⟨he, h0⟩ := List.forall_mem_cons.mp h0
      obtain ⟨he', h0'⟩ := List.forall_mem_cons.mp h0'
      obtain ⟨-, -, hdata⟩ := recorded_eq_iff.mp h.1
      rw [securebootFlagAfter, securebootFlagAfter, he, he', isSecureBootVariable_congr h.1, hdata]
      exact ih h.2 h0 h0' _

/-! ## Two baselines -/

/-- The baselines hold the same, as far as `compute_all` uses them. -/
structure SameUse (b b' : Baseline) : Prop where
  machineType_eq : b.machineType = b'.machineType
  firmware_eq : b.firmwareSha384 = b'.firmwareSha384
  secureboot_eq : b.securebootEnabled = b'.securebootEnabled
  events_eq : ∀ rtmr ∈ baselineRtmrs, b.rtmrEvents rtmr = b'.rtmrEvents rtmr

section

variable {b b' : Baseline} (sha384 : Bytes → Bytes) (firmware uki : Bytes) (ramGib numaNodes : Int)
  (maxPerNodeGib : Option Int) (rtmr3Hex gptDigestHex : Option String)

/-- **What `compute_all` uses of a baseline.** -/
theorem computeAll_congr (h : SameUse b b') :
    computeAll sha384 firmware uki b ramGib numaNodes maxPerNodeGib rtmr3Hex gptDigestHex
      = computeAll sha384 firmware uki b' ramGib numaNodes maxPerNodeGib rtmr3Hex gptDigestHex := by
  have hverify : verifyFirmware sha384 firmware b = verifyFirmware sha384 firmware b' := by
    rw [verifyFirmware, verifyFirmware, h.firmware_eq, h.machineType_eq]
  have hrtmr0 : computeRtmr0 sha384 firmware b = computeRtmr0 sha384 firmware b' := by
    rw [computeRtmr0, computeRtmr0, rtmr0Digests, rtmr0Digests, h.machineType_eq, h.secureboot_eq,
      h.events_eq 0 (by decide)]
  have hgpt : gptDigest b gptDigestHex = gptDigest b' gptDigestHex := by
    unfold gptDigest
    rw [h.events_eq 1 (by decide)]
  have hrtmr1 : computeRtmr1 sha384 uki b gptDigestHex = computeRtmr1 sha384 uki b' gptDigestHex := by
    rw [computeRtmr1, computeRtmr1, hgpt]
  rw [computeAll, computeAll, hverify, hrtmr0, hrtmr1]

/-- An extracted baseline records no firmware hash. -/
theorem extractFromCcel_firmware {ccelData : Bytes} {machineType : String}
    (h : extractFromCcel ccelData machineType = .ok b) : b.firmwareSha384 = "" := by
  simp only [extractFromCcel, bind_eq_ok, pure_eq_ok] at h
  obtain ⟨log, -, rfl⟩ := h
  rw [foldl_extractStep]
  rfl

/-- Baselines of logs that record the same are used alike. -/
theorem SameBoot.sameUse {data data' : Bytes} {machineType : String} {log log' : ParsedEventLog}
    (hsame : SameBoot log log') (hlog : parseEventLog data = .ok log) (hlog' : parseEventLog data' = .ok log')
    (hb : extractFromCcel data machineType = .ok b) (hb' : extractFromCcel data' machineType = .ok b') :
    SameUse b b' := by
  obtain ⟨log₁, hlog₁, hmachine, hflag, hevents⟩ := extractFromCcel_eq_ok hb
  obtain ⟨log₂, hlog₂, hmachine', hflag', hevents'⟩ := extractFromCcel_eq_ok hb'
  obtain rfl := ok_unique hlog hlog₁
  obtain rfl := ok_unique hlog' hlog₂
  have hzero : ∀ (log : ParsedEventLog), ∀ e ∈ log.eventsFor 0, e.registerIndex = 0 := by
    intro log e he
    have := (List.mem_filter.mp he).2
    simp only [Bool.and_eq_true, beq_iff_eq] at this
    exact this.1
  constructor
  · rw [hmachine, hmachine']
  · rw [extractFromCcel_firmware hb, extractFromCcel_firmware hb']
  · rw [hflag, hflag']
    exact securebootFlagAfter_congr (hsame 0 (by decide)) (hzero log) (hzero log') false
  · intro rtmr hrtmr
    rw [hevents, hevents']
    exact storedEvents_congr rtmr (hsame rtmr hrtmr)

/-- **Logs of the same boot give the same registers.** Where two CCELs record the same types, SHA-384 digests
and data on RTMR[0] and RTMR[1], however their events interleave and whatever else they hold, `compute_all`
cannot tell the baselines extracted from them apart: on every firmware, UKI and topology it returns the same
registers or raises the same exception. -/
theorem same_boot_same_registers {data data' : Bytes} {machineType : String} {log log' : ParsedEventLog}
    (hlog : parseEventLog data = .ok log) (hlog' : parseEventLog data' = .ok log')
    (hsame : SameBoot log log') (hb : extractFromCcel data machineType = .ok b)
    (hb' : extractFromCcel data' machineType = .ok b') :
    computeAll sha384 firmware uki b ramGib numaNodes maxPerNodeGib rtmr3Hex gptDigestHex
      = computeAll sha384 firmware uki b' ramGib numaNodes maxPerNodeGib rtmr3Hex gptDigestHex :=
  computeAll_congr _ _ _ _ _ _ _ _ (hsame.sameUse hlog hlog' hb hb')

end

/-- A recorded variable of RTMR[0] and an action of RTMR[1]. -/
def bootRecords : List Event2Record :=
  fixedRecords.take 1 ++ [⟨2, evEfiAction, [(tpmAlgSha384, List.replicate sha384Size 0xEE)], []⟩]

/-- The same two in the other order, behind an event of RTMR[2]. -/
def shuffledRecords : List Event2Record :=
  ⟨3, evSeparator, [(tpmAlgSha384, List.replicate sha384Size 0xDD)], []⟩ :: bootRecords.reverse

/-- Both logs give the registers of the same boot. -/
theorem same_boot_same_registers_sample : ∃ b b',
    extractFromCcel (sampleCcel bootRecords) "a3-highgpu-1g" = .ok b ∧
    extractFromCcel (sampleCcel shuffledRecords) "a3-highgpu-1g" = .ok b' ∧
    computeAll (sampleHash 48) sampleCfvFirmware [] b 4 1 none none none
      = computeAll (sampleHash 48) sampleCfvFirmware [] b' 4 1 none none none := by
  have hlog : parseEventLog (sampleCcel bootRecords) = .ok (sampleCcelLog bootRecords) := by
    decide +kernel
  have hlog' : parseEventLog (sampleCcel shuffledRecords) = .ok (sampleCcelLog shuffledRecords) := by
    decide +kernel
  obtain ⟨b, hb⟩ : ∃ b, extractFromCcel (sampleCcel bootRecords) "a3-highgpu-1g" = .ok b :=
    ⟨_, by rw [extractFromCcel, hlog]; rfl⟩
  obtain ⟨b', hb'⟩ : ∃ b', extractFromCcel (sampleCcel shuffledRecords) "a3-highgpu-1g" = .ok b' :=
    ⟨_, by rw [extractFromCcel, hlog']; rfl⟩
  refine ⟨b, b', hb, hb', same_boot_same_registers _ _ _ _ _ _ _ _ hlog hlog' ?_ hb hb'⟩
  unfold SameBoot
  decide +kernel

end CvmMeasure.Tdx
