import CvmMeasure.Tdx.Baseline
import CvmMeasure.Tdx.Uefi

/-! # What an extracted baseline holds

The loop of `extract_from_ccel`, as a function of the events it goes over, and the round trip of a
baseline through its document.

* **`load_save`**: loading undoes saving;
* **`storedEvents`**: the events of a register a baseline keeps, those with a SHA-384 digest that is not
  computable;
* **`extractFromCcel_eq_ok`**: the flag and the events of an extracted baseline. -/

namespace CvmMeasure.Tdx

open Binary Python Tcg

/-! ## Saving and loading -/

/-- An event comes back. -/
theorem loadEvent_toDict (e : BaselineEvent) : loadEvent e.toDict = .ok e := rfl

/-- And so do several. -/
theorem loadEvents_toDict (events : List BaselineEvent) :
    loadEvents (events.map BaselineEvent.toDict) = .ok events := by
  induction events with
  | nil => rfl
  | cons e events ih =>
    rw [List.map_cons, loadEvents, loadEvent_toDict, ih]
    rfl

/-- **Loading undoes saving.** An empty provider or platform is left out and read back as empty. -/
theorem load_save (b : Baseline) : load (save b) = .ok b := by
  obtain ⟨machineType, firmwareSha384, securebootEnabled, provider, platform, events⟩ := b
  -- the two fields that are written only if they are not empty
  by_cases hprovider : provider = "" <;> by_cases hplatform : platform = "" <;>
    simp [save, Baseline.toDict, load, eventsOf, eventItems, machineTypeField, fieldD, strValue, boolValue,
      loadEvents_toDict, List.lookup_cons, List.lookup_nil, hprovider, hplatform]

/-! ## The loop -/

/-- The SecureBoot flag behind some events: the last SecureBoot variable of RTMR[0] decides. -/
def securebootFlagAfter (flag : Bool) : List EventLogEntry → Bool
  | [] => flag
  | e :: es =>
    securebootFlagAfter
      (if e.registerIndex = 0 ∧ isSecureBootVariable e then securebootValue e.eventData else flag) es

/-- The loop sets the flag and appends the events; nothing else of the baseline changes. -/
theorem foldl_extractStep (events : List EventLogEntry) (b : Baseline) :
    events.foldl extractStep b =
      { b with
        securebootEnabled := securebootFlagAfter b.securebootEnabled events
        events := b.events ++ events.filterMap baselineEvent? } := by
  induction events generalizing b with
  | nil => rw [List.filterMap_nil, List.append_nil]; rfl
  | cons e events ih =>
    rw [List.foldl_cons, ih]
    -- the event sets the flag or not, and leaves a digest or not
    by_cases hflag : e.registerIndex = 0 ∧ isSecureBootVariable e
    · cases hevent : baselineEvent? e with
      | none => simp [extractStep, securebootFlagAfter, hflag, hevent]
      | some event => simp [extractStep, securebootFlagAfter, hflag, hevent]
    · cases hevent : baselineEvent? e with
      | none => simp [extractStep, securebootFlagAfter, hflag, hevent]
      | some event => simp [extractStep, securebootFlagAfter, hflag, hevent]

/-- The flag behind some events is where the next ones start from. -/
theorem securebootFlagAfter_append (flag : Bool) (xs ys : List EventLogEntry) :
    securebootFlagAfter flag (xs ++ ys) = securebootFlagAfter (securebootFlagAfter flag xs) ys := by
  induction xs generalizing flag with
  | nil => rfl
  | cons x xs ih => exact ih _

/-- Without a SecureBoot variable the flag stays. -/
theorem securebootFlagAfter_of_none {flag : Bool} {events : List EventLogEntry}
    (h : ∀ e ∈ events, e.registerIndex = 0 → isSecureBootVariable e = false) :
    securebootFlagAfter flag events = flag := by
  induction events with
  | nil => rfl
  | cons e events ih =>
    rw [securebootFlagAfter, if_neg, ih fun x hx => h x (List.mem_cons_of_mem e hx)]
    rintro ⟨hreg, hvar⟩
    rw [h e List.mem_cons_self hreg] at hvar
    cases hvar

/-- Only the events of RTMR[0] decide the flag. -/
theorem securebootFlagAfter_filter (flag : Bool) (events : List EventLogEntry) :
    securebootFlagAfter flag events
      = securebootFlagAfter flag (events.filter fun e => e.registerIndex == 0) := by
  induction events generalizing flag with
  | nil => rfl
  | cons e events ih =>
    by_cases hreg : e.registerIndex = 0
    · rw [List.filter_cons_of_pos (by simp [hreg]), securebootFlagAfter, securebootFlagAfter, ih]
    · rw [List.filter_cons_of_neg (by simp [hreg]), securebootFlagAfter, if_neg (fun h => hreg h.1), ih]

/-! ## The events kept -/

/-- The event leaves its digest in the baseline of a register. -/
def isStored (rtmr : Int) (e : EventLogEntry) : Bool :=
  (e.digest? tpmAlgSha384).isSome && !isComputable rtmr e

/-- The events of a register that a baseline keeps, in log order. -/
def storedEvents (log : ParsedEventLog) (rtmr : Int) : List EventLogEntry :=
  (log.eventsFor rtmr).filter (isStored rtmr)

/-- The baseline event of an event that is kept. -/
def toBaselineEvent (rtmr : Int) (e : EventLogEntry) : BaselineEvent :=
  { rtmr, eventType := e.eventTypeName, label := labelForEvent rtmr e
    digest := hex ((e.digest? tpmAlgSha384).getD []) }

/-- An event leaves its digest if it is stored. -/
theorem baselineEvent?_eq (e : EventLogEntry) :
    baselineEvent? e =
      if isStored e.registerIndex e then some (toBaselineEvent e.registerIndex e) else none := by
  unfold baselineEvent? isStored
  cases hdigest : e.digest? tpmAlgSha384 with
  | none => rfl
  | some d =>
    by_cases hcomp : isComputable e.registerIndex e = true
    · simp [hcomp]
    · simp [hcomp, toBaselineEvent, hdigest]

/-- A register's events in the baseline are the kept events of the log. -/
theorem filter_filterMap_baselineEvent? (rtmr : Int) (events : List EventLogEntry) :
    ((events.filterMap baselineEvent?).filter fun e => e.rtmr == rtmr)
      = ((events.filter fun e => e.registerIndex == rtmr).filter (isStored rtmr)).map
        (toBaselineEvent rtmr) := by
  induction events with
  | nil => rfl
  | cons e events ih =>
    rw [List.filterMap_cons, baselineEvent?_eq]
    -- an event of this register is kept on both sides or on neither
    by_cases hreg : e.registerIndex = rtmr
    · subst hreg
      by_cases hstored : isStored e.registerIndex e = true
      · simp [hstored, ih, toBaselineEvent]
      · simp [hstored, ih]
    · by_cases hstored : isStored e.registerIndex e = true
      · simp [hstored, ih, toBaselineEvent, hreg]
      · simp [hstored, ih, hreg]

/-- The measurable events of a register. -/
theorem filter_measurableEvents (log : ParsedEventLog) (rtmr : Int) :
    (log.measurableEvents.filter fun e => e.registerIndex == rtmr) = log.eventsFor rtmr :=
  List.filter_filter

/-- **What `extract_from_ccel` returns**: the flag of the last SecureBoot variable and, for each
register, the events it keeps. -/
theorem extractFromCcel_eq_ok {ccelData : Bytes} {machineType : String} {b : Baseline}
    (h : extractFromCcel ccelData machineType = .ok b) :
    ∃ log, parseEventLog ccelData = .ok log ∧ b.machineType = machineType ∧
      b.securebootEnabled = securebootFlagAfter false (log.eventsFor 0) ∧
      ∀ rtmr, b.rtmrEvents rtmr = (storedEvents log rtmr).map (toBaselineEvent rtmr) := by
  simp only [extractFromCcel, bind_eq_ok, pure_eq_ok] at h
  obtain ⟨log, hlog, rfl⟩ := h
  rw [foldl_extractStep]
  refine ⟨log, hlog, rfl, ?_, fun rtmr => ?_⟩
  · show securebootFlagAfter false log.measurableEvents = _
    rw [securebootFlagAfter_filter, filter_measurableEvents]
  · show ((([] : List BaselineEvent) ++ log.measurableEvents.filterMap baselineEvent?).filter
      fun e => e.rtmr == rtmr) = _
    rw [List.nil_append, filter_filterMap_baselineEvent?, filter_measurableEvents, storedEvents]

end CvmMeasure.Tdx
