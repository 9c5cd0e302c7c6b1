import CvmMeasure.AzureSnp.Replay
import CvmMeasure.Tdx.Rtmr

/-! # Which events a replay extends

Both replay loops skip, by an explicit `continue`, every event without a digest of the replayed
algorithm; the parsers do not require one. So a replay covers exactly the measurable events that carry
such a digest.

* **`ReplayCovers`**: one extend for each such event, on its own register, in log order;
* **`replay_covers`**: both platforms, for every accepted log. -/

namespace CvmMeasure

open Binary Python Tcg

/-- **What a replay covers.** Digests of the algorithm have its length, and the extends performed are
those of the measurable events that carry one, in order, each on the event's own register. -/
structure ReplayCovers (algoId size : Nat) (parsed : ParsedEventLog)
    (performed : List (Int × Bytes)) : Prop where
  digest_length : ∀ e ∈ parsed.events, ∀ d, e.digest? algoId = some d → d.length = size
  performed_eq : performed = parsed.measurableEvents.filterMap fun e =>
    (e.digest? algoId).map fun d => (e.registerIndex, d)
  count : performed.length = parsed.measurableEvents.countP fun e => (e.digest? algoId).isSome
  register_count : ∀ i : Int, (performed.filter fun x => x.1 == i).length
    = (parsed.eventsFor i).countP fun e => (e.digest? algoId).isSome

/-- The counts follow from the sequence of extends. -/
theorem ReplayCovers.of_performed_eq {algoId size : Nat} {parsed : ParsedEventLog}
    {performed : List (Int × Bytes)}
    (hlen : ∀ e ∈ parsed.events, ∀ d, e.digest? algoId = some d → d.length = size)
    (heq : performed = parsed.measurableEvents.filterMap fun e =>
      (e.digest? algoId).map fun d => (e.registerIndex, d)) :
    ReplayCovers algoId size parsed performed := by
  refine ⟨hlen, heq, ?_, fun i => ?_⟩
  · rw [heq, List.length_filterMap_eq_countP]
    simp
  · have hfor : parsed.eventsFor i
        = parsed.measurableEvents.filter fun e => e.registerIndex == i := by
      rw [ParsedEventLog.eventsFor, ParsedEventLog.measurableEvents, List.filter_filter]
    rw [heq, hfor]
    induction parsed.measurableEvents with
    | nil => rfl
    | cons e es ih =>
      rw [List.filterMap_cons]
      cases hreg : e.registerIndex == i <;> cases hd : e.digest? algoId <;>
        simp [hreg, hd, ih]

/-- On a CCEL every event but the first has an RTMR if it is measured, and the first carries no
SHA-384 digest: so every digest found is extended. -/
theorem extendTarget_ccel {log : Tdx.CcelLog} {e : EventLogEntry} (he : e ∈ log.entries) :
    (Tdx.extendTarget tpmAlgSha384 e).map (fun x => ((x.1.val : Int), x.2))
      = if e.eventType = evNoAction then none
        else (e.digest? tpmAlgSha384).map fun d => (e.registerIndex, d) := by
  unfold Tdx.extendTarget
  by_cases htype : e.eventType = evNoAction
  · rw [if_pos htype, if_pos htype, Option.map_none]
  · rw [if_neg htype, if_neg htype]
    cases hd : e.digest? tpmAlgSha384 with
    | none => rfl
    | some d =>
      rcases List.mem_cons.mp he with rfl | he
      · have hsize : algoDigestSizes.lookup tpmAlgSha384 = some 48 := by decide
        rw [log.spec.digest?_toEntry hsize] at hd
        cases hd
      · obtain ⟨r, hr, i, rfl⟩ := mem_entriesFrom he
        have hvalid := Tdx.validEntry_toEntry (log.events_wf r hr) i
        have hrange : 0 ≤ (r.toEntry Tdx.ccelRegister i).registerIndex ∧
            (r.toEntry Tdx.ccelRegister i).registerIndex < (Tdx.numRtmrs : Nat) := by
          have hnum : Tdx.numRtmrs = 4 := rfl
          have hnonneg := hvalid.measured htype
          have hle := hvalid.register.2
          omega
        simp only
        rw [dif_pos hrange, Option.map_some, Option.map_some]
        congr 2
        simp only
        omega

/-- The measurable events, seen through a function of each event. -/
theorem filterMap_measurable {α : Type} (g : EventLogEntry → Option α) (parsed : ParsedEventLog) :
    parsed.measurableEvents.filterMap g
      = parsed.events.filterMap fun e => if e.eventType = evNoAction then none else g e := by
  rw [ParsedEventLog.measurableEvents, List.filterMap_filter]
  congr 1
  funext e
  by_cases htype : e.eventType = evNoAction <;> simp [htype]

/-- A parsed CCEL is covered. -/
theorem replayCovers_ccel (log : Tdx.CcelLog) :
    ReplayCovers tpmAlgSha384 Tdx.sha384Size ⟨log.digestSizes, log.entries⟩
      ((Tdx.replayExtends tpmAlgSha384 log.entries).map fun x => ((x.1.val : Int), x.2)) := by
  have hsize : algoDigestSizes.lookup tpmAlgSha384 = some Tdx.sha384Size := by decide
  refine ReplayCovers.of_performed_eq (fun e he d hd => log.digest_length he hsize hd) ?_
  rw [filterMap_measurable, Tdx.replayExtends, List.map_filterMap]
  exact List.filterMap_congr fun e he => extendTarget_ccel he

/-- A parsed vTPM log is covered. -/
theorem replayCovers_vtpm (log : AzureSnp.VtpmLog) :
    ReplayCovers tpmAlgSha256 AzureSnp.sha256Size ⟨log.digestSizes, log.entries⟩
      (AzureSnp.replayExtends tpmAlgSha256 log.entries) := by
  have hsize : algoDigestSizes.lookup tpmAlgSha256 = some AzureSnp.sha256Size := by decide
  refine ReplayCovers.of_performed_eq (fun e he d hd => log.digest_length he hsize hd) ?_
  rw [filterMap_measurable]
  rfl

/-- Every event of a vTPM log has a PCR. -/
theorem register_vtpm {log : AzureSnp.VtpmLog} {e : EventLogEntry} (he : e ∈ log.entries) :
    0 ≤ e.registerIndex ∧ e.registerIndex < AzureSnp.numPcrs := by
  have key : ∀ {raw : Nat}, (AzureSnp.pcrRegister raw).isSome →
      0 ≤ (AzureSnp.pcrRegister raw).getD 0 ∧
        (AzureSnp.pcrRegister raw).getD 0 < AzureSnp.numPcrs := by
    intro raw hsome
    obtain ⟨i, hi⟩ := Option.isSome_iff_exists.mp hsome
    obtain ⟨hlt, rfl⟩ := AzureSnp.pcrRegister_eq_some.mp hi
    have hnum : AzureSnp.numPcrs = 24 := rfl
    rw [hi, Option.getD_some]
    omega
  rcases List.mem_cons.mp he with rfl | he
  · exact key log.spec_wf.register
  · obtain ⟨r, hr, i, rfl⟩ := mem_entriesFrom he
    exact key (log.events_wf r hr).register_isSome

/-- **What the replays cover.** In every accepted CCEL the measured events behind the first have an
RTMR, and a replay extends once for each measurable event that carries a SHA-384 digest, with that
digest and on that event's register. In every accepted vTPM log every event has a PCR, and a replay
extends once for each measurable event that carries a SHA-256 digest. The registers a replay returns
are the fold of these extends. -/
theorem replay_covers :
    (∀ data parsed, Tdx.parseEventLog data = .ok parsed →
      (∀ e ∈ parsed.events.tail, e.eventType ≠ evNoAction →
        0 ≤ e.registerIndex ∧ e.registerIndex < Tdx.numRtmrs) ∧
      (∀ sha384 : Bytes → Bytes, Tdx.replayEventLog sha384 parsed tpmAlgSha384
        = (Tdx.replayExtends tpmAlgSha384 parsed.events).foldl (Tdx.extendRegister sha384)
            fun _ => Tdx.zeroRtmr) ∧
      ReplayCovers tpmAlgSha384 Tdx.sha384Size parsed
        ((Tdx.replayExtends tpmAlgSha384 parsed.events).map fun x => ((x.1.val : Int), x.2))) ∧
    (∀ data parsed, AzureSnp.parseEventLog data = .ok parsed →
      (∀ e ∈ parsed.events, 0 ≤ e.registerIndex ∧ e.registerIndex < AzureSnp.numPcrs) ∧
      (∀ sha256 : Bytes → Bytes, AzureSnp.replayEventLog sha256 parsed tpmAlgSha256
        = (AzureSnp.replayExtends tpmAlgSha256 parsed.events).foldl (AzureSnp.extendPcr sha256) []) ∧
      ReplayCovers tpmAlgSha256 AzureSnp.sha256Size parsed
        (AzureSnp.replayExtends tpmAlgSha256 parsed.events)) := by
  constructor
  · intro data parsed h
    obtain ⟨log, t, -, -, -, -, rfl⟩ := Tdx.parseEventLog_ok_iff.mp h
    refine ⟨fun e he htype => ?_, fun sha384 => Tdx.foldl_replayStep sha384 _ _ _,
      replayCovers_ccel log⟩
    obtain ⟨r, hr, i, rfl⟩ := mem_entriesFrom he
    have hvalid := Tdx.validEntry_toEntry (log.events_wf r hr) i
    have hle := hvalid.register.2
    have hnum : Tdx.numRtmrs = 4 := rfl
    exact ⟨hvalid.measured htype, by omega⟩
  · intro data parsed h
    obtain ⟨log, t, -, -, rfl⟩ := AzureSnp.parseEventLog_ok_iff.mp h
    exact ⟨fun e he => register_vtpm he, fun sha256 => AzureSnp.foldl_replayStep sha256 _ _ _,
      replayCovers_vtpm log⟩

/-- Both small logs are covered. -/
theorem replay_covers_samples :
    ReplayCovers tpmAlgSha384 Tdx.sha384Size Tdx.sampleParsed
        ((Tdx.replayExtends tpmAlgSha384 Tdx.sampleParsed.events).map
          fun x => ((x.1.val : Int), x.2)) ∧
      ReplayCovers tpmAlgSha256 AzureSnp.sha256Size
        ⟨AzureSnp.sampleLog.digestSizes, AzureSnp.sampleLog.entries⟩
        (AzureSnp.replayExtends tpmAlgSha256 AzureSnp.sampleLog.entries) :=
  ⟨(replay_covers.1 Tdx.sampleLog.encode _ (by decide +kernel)).2.2,
    (replay_covers.2 AzureSnp.sampleLog.encode _ (by decide +kernel)).2.2⟩

/-- A CCEL whose one measured event carries a SHA-256 digest only: it is accepted, and its replay
extends nothing. -/
def sha256OnlyCcel : Bytes :=
  Tdx.sampleLog.spec.encode ++ (Event2Record.mk 1 evEfiVariableDriverConfig
    [(tpmAlgSha256, List.replicate 32 0xAA)] [0x01]).encode

/-- A log whose only event has a SHA-256 digest is replayed without it. -/
theorem measured_event_skipped :
    ∃ parsed, Tdx.parseEventLog sha256OnlyCcel = .ok parsed ∧
      (∃ e ∈ parsed.measurableEvents, e.digest? tpmAlgSha384 = none) ∧
      (Tdx.replayExtends tpmAlgSha384 parsed.events).length < parsed.measurableEvents.length := by
  refine ⟨⟨[(tpmAlgSha384, 48)], [Tdx.sampleLog.spec.toEntry Tdx.ccelRegister,
    ⟨1, 0, evEfiVariableDriverConfig, [(tpmAlgSha256, List.replicate 32 0xAA)], [0x01]⟩]⟩,
    by decide +kernel, ?_, by decide⟩
  exact ⟨⟨1, 0, evEfiVariableDriverConfig, [(tpmAlgSha256, List.replicate 32 0xAA)], [0x01]⟩,
    by decide, by decide⟩

end CvmMeasure
