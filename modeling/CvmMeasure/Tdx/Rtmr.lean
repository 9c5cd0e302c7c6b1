import CvmMeasure.Hash.Chain
import CvmMeasure.Tdx.Ccel

/-! # Replaying a CCEL

`rtmr.py`: from all zeros, every extend replaces a register by SHA-384 of the register and the
digest. SHA-384 is an arbitrary function throughout.

* **`extendTarget`**: the register and digest one event extends, if any: the three `continue`s of the
  loop;
* **`replayEvents`**: the loop, over the four registers at once, and `foldl_replayStep`: the fold of
  its extends;
* **`replayEvents_apply`**: the loop seen from one register, a chain over the digests of its events. -/

namespace CvmMeasure.Tdx

open Binary Python Tcg

def numRtmrs : Nat := 4
def sha384Size : Nat := 48

/-- The initial value of a register, `bytes(SHA384_SIZE)`. -/
def zeroRtmr : Bytes := List.replicate sha384Size 0x00

/-- A register index in range is that of a register. -/
theorem toNat_lt_numRtmrs {i : Int} (h : 0 ≤ i ∧ i < numRtmrs) : i.toNat < numRtmrs := by omega

/-- Where one event is extended to, and with what. Informational events, events without a digest of
the algorithm and events of other registers extend nothing. -/
def extendTarget (algoId : Nat) (event : EventLogEntry) : Option (Fin numRtmrs × Bytes) :=
  if event.eventType = evNoAction then none
  else
    match event.digest? algoId with
    | none => none
    | some digest =>
      if h : 0 ≤ event.registerIndex ∧ event.registerIndex < numRtmrs then
        some (⟨event.registerIndex.toNat, toNat_lt_numRtmrs h⟩, digest)
      else none

/-- The extends a replay performs, in order. -/
def replayExtends (algoId : Nat) (events : List EventLogEntry) : List (Fin numRtmrs × Bytes) :=
  events.filterMap (extendTarget algoId)

section

variable (sha384 : Bytes → Bytes)

/-- `extend_rtmr`: a single extend. -/
def extendRtmr (current digest : Bytes) : Bytes := Hash.extend sha384 current digest

/-- `replay_digests`: replay raw digests from an initial zero state. -/
def replayDigests (digests : List Bytes) : Bytes := Hash.replay sha384 zeroRtmr digests

/-- One round of the loop of `replay_events`. -/
def replayStep (algoId : Nat) (rtmrs : Fin numRtmrs → Bytes) (event : EventLogEntry) :
    Fin numRtmrs → Bytes :=
  match extendTarget algoId event with
  | none => rtmrs
  | some (imr, digest) => Function.update rtmrs imr (extendRtmr sha384 (rtmrs imr) digest)

/-- `replay_events`: replay event log entries to compute RTMR values. -/
def replayEvents (events : List EventLogEntry) (algoId : Nat) : Fin numRtmrs → Bytes :=
  events.foldl (replayStep sha384 algoId) fun _ => zeroRtmr

/-- `replay_event_log`: replay a complete parsed event log. -/
def replayEventLog (parsed : ParsedEventLog) (algoId : Nat) : Fin numRtmrs → Bytes :=
  replayEvents sha384 parsed.events algoId

/-- One extend of the loop: `rtmrs[imr] = extend_rtmr(rtmrs[imr], digest)`. -/
def extendRegister (rtmrs : Fin numRtmrs → Bytes) (target : Fin numRtmrs × Bytes) :
    Fin numRtmrs → Bytes :=
  Function.update rtmrs target.1 (extendRtmr sha384 (rtmrs target.1) target.2)

/-- The loop is the fold of its extends. -/
theorem foldl_replayStep (algoId : Nat) (events : List EventLogEntry) (rtmrs : Fin numRtmrs → Bytes) :
    events.foldl (replayStep sha384 algoId) rtmrs
      = (replayExtends algoId events).foldl (extendRegister sha384) rtmrs := by
  rw [replayExtends, List.foldl_filterMap]
  apply congrArg fun step => events.foldl step rtmrs
  funext rtmrs event
  unfold replayStep
  cases extendTarget algoId event with
  | none => rfl
  | some target => rfl

/-! ## One register -/

/-- The digests a replay extends one register with. -/
def rtmrDigests (algoId : Nat) (imr : Fin numRtmrs) (events : List EventLogEntry) : List Bytes :=
  ((replayExtends algoId events).filter fun x => x.1 == imr).map Prod.snd

/-- A fold of extends, seen from one register. -/
theorem foldl_extendRegister_apply (imr : Fin numRtmrs) (targets : List (Fin numRtmrs × Bytes))
    (rtmrs : Fin numRtmrs → Bytes) :
    targets.foldl (extendRegister sha384) rtmrs imr
      = Hash.replay sha384 (rtmrs imr) ((targets.filter fun x => x.1 == imr).map Prod.snd) := by
  induction targets generalizing rtmrs with
  | nil => rfl
  | cons target targets ih =>
    obtain ⟨i, digest⟩ := target
    rw [List.foldl_cons, ih, extendRegister]
    by_cases hi : i = imr
    · subst hi
      have hcons : ((i, digest) :: targets).filter (fun x => x.1 == i)
          = (i, digest) :: targets.filter fun x => x.1 == i :=
        List.filter_cons_of_pos (beq_self_eq_true i)
      rw [hcons, List.map_cons, Hash.replay_cons, Function.update_self]
      rfl
    · have hne : imr ≠ i := fun h => hi h.symm
      have hcons : ((i, digest) :: targets).filter (fun x => x.1 == imr)
          = targets.filter fun x => x.1 == imr := List.filter_cons_of_neg (by simpa using hi)
      rw [hcons, Function.update_of_ne hne]

/-- **A replayed register is a chain over its own digests.** -/
theorem replayEvents_apply (algoId : Nat) (imr : Fin numRtmrs) (events : List EventLogEntry) :
    replayEvents sha384 events algoId imr
      = replayDigests sha384 (rtmrDigests algoId imr events) := by
  rw [replayEvents, foldl_replayStep, foldl_extendRegister_apply]
  rfl

end

/-! ## What a replay depends on -/

/-- The part of an event that a replay reads. -/
def replayKey (event : EventLogEntry) : Int × Nat × List (Nat × Bytes) :=
  (event.registerIndex, event.eventType, event.digests)

/-- Which register an event extends, and with what, depends on what is replayed of it. -/
theorem extendTarget_congr (algoId : Nat) {event event' : EventLogEntry}
    (h : replayKey event = replayKey event') : extendTarget algoId event = extendTarget algoId event' := by
  obtain ⟨hreg, htype, hdigests⟩ : event.registerIndex = event'.registerIndex ∧
      event.eventType = event'.eventType ∧ event.digests = event'.digests := by
    simpa [replayKey] using h
  unfold extendTarget EventLogEntry.digest?
  simp only [hreg, htype, hdigests]

/-- Logs with the same registers, types and digests extend the same. -/
theorem replayExtends_congr {algoId : Nat} {events events' : List EventLogEntry}
    (h : events.map replayKey = events'.map replayKey) :
    replayExtends algoId events = replayExtends algoId events' := by
  induction events generalizing events' with
  | nil =>
    obtain rfl : events' = [] := by simpa using h.symm
    rfl
  | cons event events ih =>
    cases events' with
    | nil => simp at h
    | cons event' events' =>
      rw [List.map_cons, List.map_cons, List.cons.injEq] at h
      have hhead := extendTarget_congr algoId h.1
      have htail := ih h.2
      unfold replayExtends at htail ⊢
      rw [List.filterMap_cons, List.filterMap_cons, hhead, htail]

/-- So does a replay. -/
theorem replayEvents_congr {sha384 : Bytes → Bytes} {algoId : Nat} {events events' : List EventLogEntry}
    (h : events.map replayKey = events'.map replayKey) :
    replayEvents sha384 events algoId = replayEvents sha384 events' algoId := by
  funext imr
  rw [replayEvents_apply, replayEvents_apply, rtmrDigests, rtmrDigests, replayExtends_congr h]

/-- What one event contributes to one register. -/
theorem map_extendTarget (algoId : Nat) (imr : Fin numRtmrs) (event : EventLogEntry) :
    ((extendTarget algoId event).filter fun x => x.1 == imr).map Prod.snd
      = if event.registerIndex == (imr.val : Int) && event.eventType != evNoAction then
          event.digest? algoId else none := by
  have himr := imr.isLt
  unfold extendTarget
  by_cases htype : event.eventType = evNoAction
  · simp [htype]
  cases hdigest : event.digest? algoId with
  | none => simp [htype]
  | some digest =>
    simp only [htype, if_false]
    -- a digest on this register, or on another one, or on none
    by_cases hreg : event.registerIndex = imr.val
    · have hrange : 0 ≤ event.registerIndex ∧ event.registerIndex < numRtmrs := by omega
      have hfin : (⟨event.registerIndex.toNat, toNat_lt_numRtmrs hrange⟩ : Fin numRtmrs) = imr := by
        apply Fin.ext
        show event.registerIndex.toNat = imr.val
        omega
      rw [dif_pos hrange, hfin]
      simp [hreg, htype]
    · split
      · rename_i hrange
        have hfin : (⟨event.registerIndex.toNat, toNat_lt_numRtmrs hrange⟩ : Fin numRtmrs) ≠ imr := by
          intro heq
          apply hreg
          rw [← heq]
          exact (Int.toNat_of_nonneg hrange.1).symm
        simp [hreg, hfin]
      · simp [hreg]

/-- The digests of a register, event by event. -/
theorem rtmrDigests_eq_filterMap (algoId : Nat) (imr : Fin numRtmrs) (events : List EventLogEntry) :
    rtmrDigests algoId imr events
      = (events.filter fun e : EventLogEntry =>
          e.registerIndex == (imr.val : Int) && e.eventType != evNoAction).filterMap
            fun e => e.digest? algoId := by
  rw [rtmrDigests, replayExtends, List.filter_filterMap, List.map_filterMap, List.filterMap_filter]
  exact List.filterMap_congr fun e _ => map_extendTarget algoId imr e

end CvmMeasure.Tdx
