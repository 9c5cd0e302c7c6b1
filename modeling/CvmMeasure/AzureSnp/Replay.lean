import CvmMeasure.AzureSnp.EventLog
import CvmMeasure.Hash.Chain
import CvmMeasure.Python.Dict

/-! # Replaying a vTPM log

`replay_event_log` of `eventlog.py`: the same chain at SHA-256, over a dictionary that only holds the
PCRs the log touches.

* **`extendTarget`**: the PCR and digest one event extends, if any: the two `continue`s of the loop;
* **`replayEventLog_get?`**: a replayed PCR is a chain over its own digests, and is absent without
  any. -/

namespace CvmMeasure.AzureSnp

open Binary Python Tcg

def sha256Size : Nat := 32

/-- The initial value of a register, `bytes(SHA256_SIZE)`. -/
def zeroPcr : Bytes := List.replicate sha256Size 0x00

/-- Where one event is extended to, and with what. Informational events and events without a digest of
the algorithm extend nothing. -/
def extendTarget (algoId : Nat) (event : EventLogEntry) : Option (Int × Bytes) :=
  if event.eventType = evNoAction then none
  else (event.digest? algoId).map fun digest => (event.registerIndex, digest)

/-- The extends a replay performs, in order. -/
def replayExtends (algoId : Nat) (events : List EventLogEntry) : List (Int × Bytes) :=
  events.filterMap (extendTarget algoId)

section

variable (sha256 : Bytes → Bytes)

/-- One extend of the loop: `pcrs[index] = sha256(pcrs.get(index, zeros) + digest)`. -/
def extendPcr (pcrs : Dict Int Bytes) (target : Int × Bytes) : Dict Int Bytes :=
  let current := (pcrs.get? target.1).getD zeroPcr
  pcrs.set target.1 (sha256 (current ++ target.2))

/-- One round of the loop of `replay_event_log`. -/
def replayStep (algoId : Nat) (pcrs : Dict Int Bytes) (event : EventLogEntry) : Dict Int Bytes :=
  match extendTarget algoId event with
  | none => pcrs
  | some target => extendPcr sha256 pcrs target

/-- `replay_event_log`: replay a parsed log, returning each PCR it touched. -/
def replayEventLog (parsed : ParsedEventLog) (algoId : Nat) : Dict Int Bytes :=
  parsed.events.foldl (replayStep sha256 algoId) []

/-- The loop is the fold of its extends. -/
theorem foldl_replayStep (algoId : Nat) (events : List EventLogEntry) (pcrs : Dict Int Bytes) :
    events.foldl (replayStep sha256 algoId) pcrs
      = (replayExtends algoId events).foldl (extendPcr sha256) pcrs := by
  rw [replayExtends, List.foldl_filterMap]
  apply congrArg fun step => events.foldl step pcrs
  funext pcrs event
  unfold replayStep
  cases extendTarget algoId event with
  | none => rfl
  | some target => rfl

/-- The digests of one PCR, out of a sequence of extends. -/
def digestsOf (pcr : Int) (targets : List (Int × Bytes)) : List Bytes :=
  (targets.filter fun x => x.1 == pcr).map Prod.snd

/-- A fold of extends, seen from one PCR. -/
theorem foldl_extendPcr_get? (pcr : Int) (targets : List (Int × Bytes)) (pcrs : Dict Int Bytes) :
    (targets.foldl (extendPcr sha256) pcrs).get? pcr =
      if digestsOf pcr targets = [] then pcrs.get? pcr
      else some (Hash.replay sha256 ((pcrs.get? pcr).getD zeroPcr) (digestsOf pcr targets)) := by
  induction targets generalizing pcrs with
  | nil => rfl
  | cons target targets ih =>
    rw [List.foldl_cons, ih]
    obtain ⟨i, digest⟩ := target
    by_cases hi : i = pcr
    · subst hi
      have hcons : digestsOf i ((i, digest) :: targets) = digest :: digestsOf i targets := by
        simp [digestsOf]
      rw [hcons, if_neg (List.cons_ne_nil _ _), extendPcr, Dict.get?_set_self, Hash.replay_cons]
      by_cases hnil : digestsOf i targets = []
      · rw [if_pos hnil, hnil]
        rfl
      · rw [if_neg hnil]
        rfl
    · have hcons : digestsOf pcr ((i, digest) :: targets) = digestsOf pcr targets := by
        simp [digestsOf, hi]
      have hne : pcr ≠ i := fun h => hi h.symm
      rw [hcons, extendPcr, Dict.get?_set_of_ne hne]

end

/-- **A replayed PCR is a chain over its own digests**, and is absent without any. -/
theorem replayEventLog_get? (sha256 : Bytes → Bytes) (parsed : ParsedEventLog) (algoId : Nat)
    (pcr : Int) :
    (replayEventLog sha256 parsed algoId).get? pcr =
      if digestsOf pcr (replayExtends algoId parsed.events) = [] then none
      else some (Hash.replay sha256 zeroPcr (digestsOf pcr (replayExtends algoId parsed.events))) := by
  rw [replayEventLog, foldl_replayStep, foldl_extendPcr_get?]
  rfl

end CvmMeasure.AzureSnp
