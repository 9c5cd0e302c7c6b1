import CvmMeasure.Tdx.CcelTruncation
import CvmMeasure.Tdx.Extraction

/-! # Baselines of truncated logs

A baseline takes more from an event than a replay does: labels and the Secure Boot flag are decoded
from the event data, which a truncated log completed with fill may end in fill.

* **`extractEvents`**: the loop of `extract_from_ccel` over some events;
* **`FillStaysOut`**: a truncated log gives a baseline that whole events of the true log give as well;
* **`FillHarmless`**: the record the cut falls into leaves the same behind when it is read on into the
  fill;
* **`fillStaysOut_iff`**: the first holds iff the second does; `not_fillStaysOut_enabled` is a log that
  turns Secure Boot on by being cut. -/

namespace CvmMeasure.Tdx

open Binary Python Tcg

/-! ## The loop over some events -/

/-- The baseline the loop of `extract_from_ccel` builds from some events. -/
def extractEvents (machineType : String) (events : List EventLogEntry) : Baseline :=
  (events.filter fun e => e.eventType != evNoAction).foldl extractStep (emptyBaseline machineType)

/-- A baseline is extracted from what is parsed. -/
theorem extractFromCcel_ok_iff {ccelData : Bytes} {machineType : String} {b : Baseline} :
    extractFromCcel ccelData machineType = .ok b ↔
      ∃ log, parseEventLog ccelData = .ok log ∧ b = extractEvents machineType log.events := by
  simp only [extractFromCcel, bind_eq_ok, pure_eq_ok]
  exact exists_congr fun log => and_congr_right fun _ => eq_comm

/-- It keeps what the measurable events leave, -/
theorem extractEvents_events (machineType : String) (events : List EventLogEntry) :
    (extractEvents machineType events).events
      = (events.filter fun e => e.eventType != evNoAction).filterMap baselineEvent? := by
  rw [extractEvents, foldl_extractStep]
  exact List.nil_append _

/-- and the flag of the last SecureBoot variable among them. -/
theorem extractEvents_securebootEnabled (machineType : String) (events : List EventLogEntry) :
    (extractEvents machineType events).securebootEnabled
      = securebootFlagAfter false (events.filter fun e => e.eventType != evNoAction) := by
  rw [extractEvents, foldl_extractStep]
  rfl

/-- The event records Secure Boot as enabled. -/
def RecordsEnabled (e : EventLogEntry) : Prop :=
  e.registerIndex = 0 ∧ isSecureBootVariable e = true ∧ securebootValue e.eventData = true

instance : DecidablePred RecordsEnabled := fun _ => inferInstanceAs (Decidable (_ ∧ _ ∧ _))

/-- A SecureBoot variable is measured. -/
theorem RecordsEnabled.measurable {e : EventLogEntry} (h : RecordsEnabled e) :
    (e.eventType != evNoAction) = true := by
  obtain ⟨-, hvar, -⟩ := h
  rw [isSecureBootVariable, Bool.and_eq_true, beq_iff_eq] at hvar
  rw [hvar.1]
  decide

/-- A flag that is on was on before, or some event turned it on. -/
theorem exists_recordsEnabled_of_flag {flag : Bool} {events : List EventLogEntry}
    (h : securebootFlagAfter flag events = true) :
    flag = true ∨ ∃ e ∈ events, RecordsEnabled e := by
  induction events generalizing flag with
  | nil => exact Or.inl h
  | cons e events ih =>
    rw [securebootFlagAfter] at h
    rcases ih h with hflag | ⟨x, hx, hon⟩
    · by_cases hvar : e.registerIndex = 0 ∧ isSecureBootVariable e = true
      · rw [if_pos hvar] at hflag
        exact Or.inr ⟨e, List.mem_cons_self, hvar.1, hvar.2, hflag⟩
      · rw [if_neg hvar] at hflag
        exact Or.inl hflag
    · exact Or.inr ⟨x, List.mem_cons_of_mem e hx, hon⟩

/-- After an event that turns it on, the flag is on. -/
theorem extractEvents_concat_enabled (machineType : String) (events : List EventLogEntry)
    {e : EventLogEntry} (h : RecordsEnabled e) :
    (extractEvents machineType (events ++ [e])).securebootEnabled = true := by
  have hkept : ([e].filter fun e => e.eventType != evNoAction) = [e] := by
    rw [List.filter_singleton, h.measurable]
    rfl
  rw [extractEvents_securebootEnabled, List.filter_append, hkept, securebootFlagAfter_append,
    securebootFlagAfter, if_pos ⟨h.1, h.2.1⟩]
  exact h.2.2

/-- A flag that is set was set by an event. -/
theorem exists_recordsEnabled {machineType : String} {events : List EventLogEntry}
    (h : (extractEvents machineType events).securebootEnabled = true) :
    ∃ e ∈ events, RecordsEnabled e := by
  rw [extractEvents_securebootEnabled] at h
  rcases exists_recordsEnabled_of_flag h with hflag | ⟨e, he, hon⟩
  · cases hflag
  · exact ⟨e, (List.mem_filter.mp he).1, hon⟩

/-- **Which flags the prefixes of a log give**: off always, on if some event turns it on. -/
theorem exists_take_flag_iff {machineType : String} {events : List EventLogEntry} {flag : Bool} :
    (∃ m, flag = (extractEvents machineType (events.take m)).securebootEnabled) ↔
      (flag = true → ∃ e ∈ events, RecordsEnabled e) := by
  constructor
  · rintro ⟨m, rfl⟩ h
    obtain ⟨e, he, hon⟩ := exists_recordsEnabled h
    exact ⟨e, List.mem_of_mem_take he, hon⟩
  · intro h
    cases flag with
    | false => exact ⟨0, rfl⟩
    | true =>
      obtain ⟨e, he, hon⟩ := h rfl
      obtain ⟨xs, ys, rfl⟩ := List.append_of_mem he
      refine ⟨(xs ++ [e]).length, ?_⟩
      rw [List.append_cons xs e ys, List.take_left]
      exact (extractEvents_concat_enabled machineType xs hon).symm

/-! ## The loop over the records of a log -/

/-- The baseline event a record leaves, if it is measured and not computable. -/
def recordLeaves (r : Event2Record) : Option BaselineEvent :=
  if r.eventType = evNoAction then none else baselineEvent? (r.toEntry ccelRegister 0)

/-- What the entries of a log leave is what its records leave. -/
theorem filterMap_entriesFrom (index : Nat) (rs : List Event2Record) :
    ((entriesFrom ccelRegister index rs).filter fun e => e.eventType != evNoAction).filterMap
      baselineEvent? = rs.filterMap recordLeaves := by
  induction rs generalizing index with
  | nil => rfl
  | cons r rs ih =>
    -- where an event stands in the log makes no difference to what it leaves
    have hevent : baselineEvent? (r.toEntry ccelRegister index)
        = baselineEvent? (r.toEntry ccelRegister 0) := rfl
    by_cases htype : r.eventType = evNoAction
    · have hnone : recordLeaves r = none := if_pos htype
      rw [entriesFrom, List.filter_cons_of_neg (by simp [Event2Record.toEntry, htype]),
        List.filterMap_cons_none hnone]
      exact ih _
    · have hleaves : recordLeaves r = baselineEvent? (r.toEntry ccelRegister 0) := if_neg htype
      rw [entriesFrom, List.filter_cons_of_pos (by simp [Event2Record.toEntry, htype]),
        List.filterMap_cons, List.filterMap_cons, hevent, hleaves, ih]

/-- The first record leaves nothing: its one digest is of no algorithm. -/
theorem baselineEvent?_spec (r : SpecIdRecord) : baselineEvent? (r.toEntry ccelRegister) = none := by
  have hdigest : (r.toEntry ccelRegister).digest? tpmAlgSha384 = none :=
    SpecIdRecord.digest?_toEntry r (show algoDigestSizes.lookup tpmAlgSha384 = some 48 from rfl)
  rw [baselineEvent?, hdigest]

/-- **The baseline events of a log** are those its records leave, in order. -/
theorem extractEvents_entries (machineType : String) (log : CcelLog) :
    (extractEvents machineType log.entries).events = log.events.filterMap recordLeaves := by
  rw [extractEvents_events, TcgLog.entries]
  simp only [List.filter_cons]
  split
  · rw [List.filterMap_cons_none (baselineEvent?_spec log.spec), filterMap_entriesFrom]
  · exact filterMap_entriesFrom 1 log.events

/-- A value that is set has one byte, and a length field that says so. -/
theorem uintAt_of_securebootValue {d : Bytes} (h : securebootValue d = true) :
    32 ≤ d.length ∧ uintAt d 24 8 = 1 := by
  unfold securebootValue at h
  dsimp only at h
  split at h
  · cases h
  · split at h
    · cases h
    · omega

/-- The first record does not turn Secure Boot on: where a variable declares its one byte of data, the
payload declares a digest size, and no size is zero. -/
theorem not_recordsEnabled_spec {r : SpecIdRecord} (hr : r.WellFormed ccelRegister) :
    ¬ RecordsEnabled (r.toEntry ccelRegister) := by
  rintro ⟨-, -, hvalue⟩
  obtain ⟨hlen, hdata⟩ := uintAt_of_securebootValue hvalue
  obtain ⟨a, algos, halgos⟩ := List.exists_cons_of_ne_nil hr.payload.algos_ne_nil
  have ha := hr.payload.algos_valid a (by rw [halgos]; exact List.mem_cons_self)
  have hslice : slice r.payload.encode 24 (24 + 8)
      = leBytes 4 r.payload.algos.length ++ (leBytes 2 a.1 ++ leBytes 2 a.2) := by
    have hat : HasAt r.payload.encode 0 r.payload.encode := List.prefix_rfl
    conv at hat => rhs; unfold SpecIdPayload.encode
    simp only [hasAt_append, leBytes_length, length_specIdSignature, hr.payload.platform_length,
      halgos, List.flatMap_cons, encodeAlgo] at hat
    have hfields : HasAt r.payload.encode 24
        (leBytes 4 r.payload.algos.length ++ (leBytes 2 a.1 ++ leBytes 2 a.2)) := by
      simp only [hasAt_append, leBytes_length, halgos]
      exact ⟨hat.2.2.1, hat.2.2.2.1.1.1, hat.2.2.2.1.1.2⟩
    simpa using hasAt_iff_slice_eq.mp hfields
  have hone : slice r.payload.encode 24 (24 + 8) = leBytes 8 1 := by
    rw [← hdata]
    exact (leBytes_leNat_of_length (length_slice_of_le hlen)).symm
  -- so the last two of the eight bytes spell the size zero
  have hsize : leBytes 2 a.2 = leBytes 2 0 := by
    rw [hslice] at hone
    have hsplit : leBytes 8 1 = leBytes 4 1 ++ (leBytes 2 0 ++ leBytes 2 0) := by decide
    rw [hsplit] at hone
    exact (List.append_inj (List.append_inj hone (by simp)).2 (by simp)).2
  have hmax : maxDigestSize < 256 ^ 2 := by decide
  have hzero := leBytes_inj (ha.size_le.trans_lt hmax) (by decide) hsize
  have hpos := ha.size_pos
  omega

/-- Every record has an entry, -/
theorem exists_mem_entriesFrom {r : Event2Record} {rs : List Event2Record} (hr : r ∈ rs)
    (index : Nat) : ∃ i, r.toEntry ccelRegister i ∈ entriesFrom ccelRegister index rs := by
  induction rs generalizing index with
  | nil => cases hr
  | cons x rs ih =>
    rcases List.mem_cons.mp hr with rfl | hr
    · exact ⟨index, List.mem_cons_self⟩
    · obtain ⟨i, hi⟩ := ih hr (index + 1)
      exact ⟨i, List.mem_cons_of_mem _ hi⟩

/-- and the last record has the last one. -/
theorem entriesFrom_concat (rs : List Event2Record) (r : Event2Record) (index : Nat) :
    entriesFrom ccelRegister index (rs ++ [r])
      = entriesFrom ccelRegister index rs ++ [r.toEntry ccelRegister (index + rs.length)] := by
  induction rs generalizing index with
  | nil => rfl
  | cons x rs ih =>
    rw [List.cons_append, entriesFrom, ih, entriesFrom, List.cons_append, List.length_cons,
      Nat.add_right_comm, Nat.add_assoc]

/-- **A log records Secure Boot as enabled** iff one of its later records does. -/
theorem exists_recordsEnabled_iff (log : CcelLog) :
    (∃ e ∈ log.entries, RecordsEnabled e) ↔
      ∃ r ∈ log.events, RecordsEnabled (r.toEntry ccelRegister 0) := by
  constructor
  · rintro ⟨e, he, hon⟩
    rcases List.mem_cons.mp he with rfl | he
    · exact absurd hon (not_recordsEnabled_spec log.spec_wf)
    · obtain ⟨r, hr, i, rfl⟩ := mem_entriesFrom he
      exact ⟨r, hr, hon⟩
  · rintro ⟨r, hr, hon⟩
    obtain ⟨i, hi⟩ := exists_mem_entriesFrom hr 1
    exact ⟨_, List.mem_cons_of_mem _ hi, hon⟩

/-! ## A record read on into the fill -/

/-- The record `r` with its size and its data read from `rest`, if `rest` is long enough for them. -/
def reread (r : Event2Record) (rest : Bytes) : Option Event2Record :=
  let size := leNat (rest.take 4)
  if 4 + size ≤ rest.length then some { r with eventData := slice rest 4 (4 + size) } else none

/-- The cut record is read again as one with its key and other data, if that data is there with its length. -/
theorem reread_eq_some {r r' : Event2Record} {rest : Bytes} :
    reread r rest = some r' ↔ recordKey r' = recordKey r ∧ r'.eventData.length < 256 ^ 4 ∧
      leBytes 4 r'.eventData.length ++ r'.eventData <+: rest := by
  unfold reread
  dsimp only
  constructor
  · intro h
    split at h
    · rename_i hle
      obtain rfl := Option.some.inj h
      have htake : (rest.take 4).length = 4 := by
        rw [List.length_take]
        omega
      have hlen : (slice rest 4 (4 + leNat (rest.take 4))).length = leNat (rest.take 4) := by
        rw [length_slice_of_le hle, Nat.add_sub_cancel_left]
      have hlt := leNat_lt (rest.take 4)
      rw [htake] at hlt
      refine ⟨rfl, by rw [hlen]; exact hlt, ?_⟩
      rw [hlen, leBytes_leNat_of_length htake, slice, Nat.add_sub_cancel_left, ← List.take_add]
      exact List.take_prefix _ _
    · cases h
  · rintro ⟨hkey, hlt, tail, rfl⟩
    have htake : ((leBytes 4 r'.eventData.length ++ r'.eventData) ++ tail).take 4
        = leBytes 4 r'.eventData.length := by
      rw [List.append_assoc, List.take_left' (leBytes_length _ _)]
    have hdata : slice ((leBytes 4 r'.eventData.length ++ r'.eventData) ++ tail) 4
        (4 + r'.eventData.length) = r'.eventData := by
      rw [slice, Nat.add_sub_cancel_left, List.append_assoc, List.drop_left' (leBytes_length _ _),
        List.take_left]
    rw [htake, leNat_leBytes hlt, hdata, if_pos]
    · obtain ⟨raw, type, digests, data⟩ := r'
      simp only [recordKey, Prod.mk.injEq] at hkey
      obtain ⟨rfl, rfl, rfl⟩ := hkey
      rfl
    · rw [List.length_append, List.length_append, leBytes_length]
      omega

/-- Only the data of the record is new. -/
theorem wellFormed_of_recordKey {sizes : List (Nat × Nat)} {r r' : Event2Record}
    (hr : r.WellFormed ccelRegister sizes) (h : recordKey r' = recordKey r)
    (hdata : r'.eventData.length < 256 ^ 4) : r'.WellFormed ccelRegister sizes := by
  simp only [recordKey, Prod.mk.injEq] at h
  obtain ⟨hraw, htype, hdigests⟩ := h
  refine ⟨?_, ?_, ?_, ?_, ?_, hdata⟩
  · rw [hraw]
    exact hr.rawIndex_lt
  · rw [hraw, htype]
    exact hr.register
  · rw [htype]
    exact hr.eventType_lt
  · rw [hdigests]
    exact hr.digest_valid
  · rw [hdigests]
    exact hr.ids_nodup

/-! ## The record the cut falls into -/

section Cut

variable {log : CcelLog} {terminated : Bool} {k n : Nat} {pad : UInt8} {pre post : List Event2Record}
  {r r' : Event2Record}

/-- Where the size and the data of the record behind `pre` start. -/
def bodyStart (log : CcelLog) (pre : List Event2Record) (r : Event2Record) : Nat :=
  log.spec.encode.length + (pre.flatMap Event2Record.encode).length + r.head.length

/-- The records up to the one the cut falls into, in the true log. -/
theorem CutIn.hasAt_whole (h : CutIn k log.spec.encode.length log.events pre r post)
    (terminated : Bool) : HasAt (terminatedEncode log terminated) 0
      (log.spec.encode ++ (pre.flatMap Event2Record.encode ++ r.encode)) := by
  have hfirst : pre.flatMap Event2Record.encode ++ r.encode
      <+: log.events.flatMap Event2Record.encode := by
    rw [h.split, List.flatMap_append, List.flatMap_cons, ← List.append_assoc]
    exact List.prefix_append _ _
  exact ((List.prefix_append_right_inj _).mpr hfirst).trans (List.prefix_append _ _)

/-- A log read off the cut one ends in the record read on into the fill. -/
theorem reread_of_encode {log' : CcelLog} {t : TableTail}
    (hcut : completedCut log terminated k pad n = log'.encode ++ t.encode)
    (hspec : log'.spec = log.spec) (hevents : log'.events = pre ++ [r'])
    (hkey : recordKey r' = recordKey r) :
    reread r ((completedCut log terminated k pad n).drop (bodyStart log pre r)) = some r' := by
  have hr' : r' ∈ log'.events := by
    rw [hevents]
    simp
  refine reread_eq_some.mpr ⟨hkey, (log'.events_wf r' hr').eventData_lt, ?_⟩
  have hat : HasAt (completedCut log terminated k pad n) 0 log'.encode := by
    rw [hcut]
    exact List.prefix_append _ _
  rw [TcgLog.encode, hspec, hevents, List.flatMap_append, List.flatMap_singleton,
    Event2Record.encode, head_eq_of_recordKey hkey] at hat
  rw [hasAt_append, hasAt_append, hasAt_append, Nat.zero_add] at hat
  exact hat.2.2.2

/-- Read on into the fill, the record reaches the cut: its size is the true one, or cut itself. -/
theorem CutIn.le_of_reread (h : CutIn k log.spec.encode.length log.events pre r post)
    (hk : k < (terminatedEncode log terminated).length)
    (hread : reread r ((completedCut log terminated k pad n).drop (bodyStart log pre r)) = some r') :
    k ≤ bodyStart log pre r + 4 + r'.eventData.length := by
  obtain ⟨-, hlt, hat⟩ := reread_eq_some.mp hread
  have hr : r ∈ log.events := by
    rw [h.split]
    simp
  have hwhole := h.hasAt_whole terminated
  rw [Event2Record.encode, hasAt_append, hasAt_append, hasAt_append, hasAt_append, Nat.zero_add]
    at hwhole
  by_cases hle : bodyStart log pre r + 4 ≤ k
  · have hsizeAt : HasAt (completedCut log terminated k pad n) (bodyStart log pre r)
        (leBytes 4 r'.eventData.length) := (List.prefix_append _ _).trans hat
    have hsize := (hsizeAt.congr (take_completedCut hk pad n) (by simpa using hle)).eq_of_length_eq
      hwhole.2.2.2.1 (by simp)
    have hlen := leBytes_inj hlt (log.events_wf r hr).eventData_lt hsize
    have hend := h.lt_end
    rw [r.length_encode] at hend
    rw [hlen, bodyStart]
    omega
  · omega

/-- Behind the cut there is only fill. -/
theorem drop_completedCut (hk : k < (terminatedEncode log terminated).length) {o : Nat} (ho : k ≤ o) :
    (completedCut log terminated k pad n).drop o = List.replicate (n - (o - k)) pad := by
  have htake := length_take_terminatedEncode hk
  rw [completedCut, List.drop_append, List.drop_of_length_le (by omega), htake, List.drop_replicate,
    List.nil_append]

/-- **Read on into the fill, the cut log is a log again**, with the record read on as its last. -/
theorem CutIn.exists_log_of_reread (h : CutIn k log.spec.encode.length log.events pre r post)
    (hk : k < (terminatedEncode log terminated).length) (hpad : pad ∈ paddingBytes)
    (hread : reread r ((completedCut log terminated k pad n).drop (bodyStart log pre r)) = some r') :
    ∃ log' : CcelLog, ∃ t : TableTail, completedCut log terminated k pad n = log'.encode ++ t.encode ∧
      log'.events = pre ++ [r'] ∧ lastDigestEnd log' = bodyStart log pre r := by
  have hreach := h.le_of_reread hk hread
  obtain ⟨hkey, hlt, hat⟩ := reread_eq_some.mp hread
  have hwf : ∀ x ∈ pre ++ [r'], x.WellFormed ccelRegister log.spec.payload.algos := by
    intro x hx
    rcases List.mem_append.mp hx with hx | hx
    · exact log.events_wf x (by rw [h.split]; exact List.mem_append_left _ hx)
    · obtain rfl := List.mem_singleton.mp hx
      exact wellFormed_of_recordKey (log.events_wf r (by rw [h.split]; simp)) hkey hlt
  obtain ⟨log', hspec, hevents⟩ : ∃ log' : CcelLog, log'.spec = log.spec ∧ log'.events = pre ++ [r'] :=
    ⟨⟨log.spec, pre ++ [r'], log.spec_wf, hwf⟩, rfl, rfl⟩
  have hencode : log'.encode = (log.spec.encode ++ (pre.flatMap Event2Record.encode ++ r.head)) ++
      (leBytes 4 r'.eventData.length ++ r'.eventData) := by
    rw [TcgLog.encode, hspec, hevents, List.flatMap_append, List.flatMap_singleton,
      Event2Record.encode, head_eq_of_recordKey hkey, List.append_assoc, List.append_assoc]
  have hstart : (log.spec.encode ++ (pre.flatMap Event2Record.encode ++ r.head)).length
      = bodyStart log pre r := by
    rw [List.length_append, List.length_append, bodyStart, Nat.add_assoc]
  have hlen : log'.encode.length = bodyStart log pre r + 4 + r'.eventData.length := by
    rw [hencode, List.length_append, hstart, List.length_append, leBytes_length, Nat.add_assoc]
  -- ahead of the cut the bytes are the true ones, behind it the record is read
  have hlogAt : HasAt (completedCut log terminated k pad n) 0 log'.encode := by
    rw [hencode, hasAt_append, hstart, Nat.zero_add]
    refine ⟨?_, hat⟩
    have hwhole := h.hasAt_whole terminated
    rw [Event2Record.encode, ← List.append_assoc (pre.flatMap Event2Record.encode), ← List.append_assoc]
      at hwhole
    refine HasAt.congr ((List.prefix_append _ _).trans hwhole) (take_completedCut hk pad n).symm ?_
    have hhead := h.head_le
    rw [hstart, bodyStart]
    omega
  have hsplit := hlogAt.drop_eq
  rw [List.drop_zero, Nat.zero_add, drop_completedCut hk (by omega)] at hsplit
  refine ⟨log', ⟨false, pad, _, hpad⟩, hsplit, hevents, ?_⟩
  have hlast : log'.events.getLast? = some r' := by
    rw [hevents, List.getLast?_concat]
  have hr' := r'.length_encode
  rw [lastDigestEnd, hlast]
  show log'.encode.length - r'.encode.length + r'.head.length = bodyStart log pre r
  rw [head_eq_of_recordKey hkey] at hr' ⊢
  have hhead : r.head.length ≤ bodyStart log pre r := Nat.le_add_left _ _
  omega

end Cut

/-! ## What fill can change -/

/-- **A truncated log gives a baseline that whole events of the true log give as well**: its events
are a prefix of the true ones, its flag is that of some first events, and it is only on if one of the
true events turned it on. -/
def FillStaysOut (log : CcelLog) (terminated : Bool) (k : Nat) (pad : UInt8) (n : Nat) : Prop :=
  ∀ (machineType : String) (b : Baseline),
    extractFromCcel (completedCut log terminated k pad n) machineType = .ok b →
    b.events <+: (extractEvents machineType log.entries).events ∧
    (∃ m, b.securebootEnabled
      = (extractEvents machineType (log.entries.take m)).securebootEnabled) ∧
    (b.securebootEnabled = true → ∃ e ∈ log.entries, RecordsEnabled e)

/-- **The record the cut falls into is harmless.** Either it cannot be read on into the fill, or the
baseline event it then leaves is the next one of the true log, and it does not turn Secure Boot on
unless a true event does. -/
def FillHarmless (log : CcelLog) (terminated : Bool) (k : Nat) (pad : UInt8) (n : Nat) : Prop :=
  ∀ pre r post r', CutIn k log.spec.encode.length log.events pre r post →
    bodyStart log pre r ≤ fillBoundary (completedCut log terminated k pad n) →
    reread r ((completedCut log terminated k pad n).drop (bodyStart log pre r)) = some r' →
    (∀ e, recordLeaves r' = some e → ((r :: post).filterMap recordLeaves).head? = some e) ∧
    (RecordsEnabled (r'.toEntry ccelRegister 0) → ∃ e ∈ log.entries, RecordsEnabled e)

/-- The baseline event of an event that is no variable does not depend on its data. -/
theorem baselineEvent?_congr {e e' : EventLogEntry} (hreg : e'.registerIndex = e.registerIndex)
    (htype : e'.eventType = e.eventType) (hdigests : e'.digests = e.digests)
    (hconfig : e.eventType ≠ evEfiVariableDriverConfig) (hboot : e.eventType ≠ evEfiVariableBoot) :
    baselineEvent? e' = baselineEvent? e := by
  obtain ⟨index, reg, type, digests, data⟩ := e
  obtain ⟨index', reg', type', digests', data'⟩ := e'
  dsimp only at hreg htype hdigests hconfig hboot
  subst hreg htype hdigests
  have hvariable : ¬ (type' = evEfiVariableDriverConfig ∨ type' = evEfiVariableBoot) :=
    not_or.mpr ⟨hconfig, hboot⟩
  have hlabel : labelForEvent reg' ⟨index', reg', type', digests', data'⟩
      = labelForEvent reg' ⟨index, reg', type', digests', data⟩ := by
    simp only [labelForEvent, if_neg hvariable]
    rfl
  have hcomputable : isComputable reg' ⟨index', reg', type', digests', data'⟩
      = isComputable reg' ⟨index, reg', type', digests', data⟩ := by
    simp only [isComputable, isSecureBootVariable, beq_eq_false_iff_ne.mpr hconfig, Bool.false_and]
  simp only [baselineEvent?, hlabel, hcomputable]
  rfl

/-- The same for records. -/
theorem recordLeaves_eq_of_recordKey {r r' : Event2Record} (h : recordKey r' = recordKey r)
    (hconfig : r.eventType ≠ evEfiVariableDriverConfig) (hboot : r.eventType ≠ evEfiVariableBoot) :
    recordLeaves r' = recordLeaves r := by
  simp only [recordKey, Prod.mk.injEq] at h
  obtain ⟨hraw, htype, hdigests⟩ := h
  have hreg : (r'.toEntry ccelRegister 0).registerIndex = (r.toEntry ccelRegister 0).registerIndex := by
    rw [Event2Record.toEntry, Event2Record.toEntry, hraw]
  rw [recordLeaves, recordLeaves, htype, baselineEvent?_congr hreg htype hdigests hconfig hboot]

/-- **Only variable events are at risk**: a cut anywhere else is harmless. -/
theorem fillHarmless_of_no_variable_cut (log : CcelLog) (terminated : Bool) (k : Nat) (pad : UInt8)
    (n : Nat) (h : ∀ pre r post, CutIn k log.spec.encode.length log.events pre r post →
      r.eventType ≠ evEfiVariableDriverConfig ∧ r.eventType ≠ evEfiVariableBoot) :
    FillHarmless log terminated k pad n := by
  intro pre r post r' hcut _ hread
  obtain ⟨hconfig, hboot⟩ := h pre r post hcut
  obtain ⟨hkey, -, -⟩ := reread_eq_some.mp hread
  constructor
  · intro e he
    rw [recordLeaves_eq_of_recordKey hkey hconfig hboot] at he
    rw [List.filterMap_cons_some he, List.head?_cons]
  · rintro ⟨-, hvar, -⟩
    simp only [recordKey, Prod.mk.injEq] at hkey
    rw [isSecureBootVariable, Bool.and_eq_true, beq_iff_eq] at hvar
    exact absurd (hkey.2.1.symm.trans hvar.1) hconfig

/-- One element more maps into the true continuation iff it maps to nothing or to what comes next. -/
theorem filterMap_concat_prefix_iff {α β : Type} (f : α → Option β) (pre : List α) (x : α)
    (ys : List α) : (pre ++ [x]).filterMap f <+: (pre ++ ys).filterMap f ↔
      ∀ b, f x = some b → (ys.filterMap f).head? = some b := by
  rw [List.filterMap_append, List.filterMap_append, List.prefix_append_right_inj]
  cases hx : f x with
  | none => simp [hx]
  | some b =>
    have hone : [x].filterMap f = [b] := by
      rw [List.filterMap_cons_some hx, List.filterMap_nil]
    rw [hone]
    cases ys.filterMap f with
    | nil => simp
    | cons c cs =>
      rw [List.cons_prefix_cons, List.head?_cons]
      simp [eq_comm]

section Fill

variable {log : CcelLog} {terminated : Bool} {k n : Nat} {pad : UInt8}

/-- Where the baseline stays true, the record the cut falls into is harmless: the log with that record
read on is one the parser returns. -/
theorem FillStaysOut.fillHarmless (h : FillStaysOut log terminated k pad n)
    (hk : k < (terminatedEncode log terminated).length) (hpad : pad ∈ paddingBytes) :
    FillHarmless log terminated k pad n := by
  intro pre r post r' hcut hbound hread
  obtain ⟨log', t, hdata, hevents, hlast⟩ := hcut.exists_log_of_reread hk hpad hread
  have hparse : parseEventLog (completedCut log terminated k pad n)
      = .ok ⟨log'.digestSizes, log'.entries⟩ := by
    rw [hdata] at hbound ⊢
    exact parseEventLog_of_lastDigestEnd_le (hlast.trans_le hbound)
  obtain ⟨hstart, -, henabled⟩ := h "" _ (extractFromCcel_ok_iff.mpr ⟨_, hparse, rfl⟩)
  constructor
  · rw [extractEvents_entries, extractEvents_entries, hevents, hcut.split] at hstart
    exact (filterMap_concat_prefix_iff recordLeaves pre r' (r :: post)).mp hstart
  · intro hon
    apply henabled
    show (extractEvents "" log'.entries).securebootEnabled = true
    rw [TcgLog.entries, hevents, entriesFrom_concat, ← List.cons_append]
    exact extractEvents_concat_enabled "" _ hon

/-- Where the record the cut falls into is harmless, so is every log the parser returns: its records
are the true ones, up to that one. -/
theorem FillHarmless.of_parsed (h : FillHarmless log terminated k pad n)
    (hk : k < (terminatedEncode log terminated).length) (hpad : pad ∈ paddingBytes)
    {parsed : ParsedEventLog}
    (hparse : parseEventLog (completedCut log terminated k pad n) = .ok parsed)
    (machineType : String) :
    (extractEvents machineType parsed.events).events
        <+: (extractEvents machineType log.entries).events ∧
      ((∃ e ∈ parsed.events, RecordsEnabled e) → ∃ e ∈ log.entries, RecordsEnabled e) := by
  obtain ⟨log', t, hdata, rfl, -, hspec, hevents⟩ := exists_log_of_completedCut hk hpad hparse
  dsimp only
  rw [extractEvents_entries, extractEvents_entries, exists_recordsEnabled_iff,
    exists_recordsEnabled_iff]
  rcases hevents with hpre | ⟨pre, r, post, r', hcut, heq, hkey, hbound⟩
  · refine ⟨hpre.filterMap recordLeaves, ?_⟩
    rintro ⟨r, hr, hon⟩
    exact ⟨r, hpre.subset hr, hon⟩
  · have hread := reread_of_encode hdata (hspec (by simp [heq])) heq hkey
    obtain ⟨hleaves, hon⟩ := h pre r post r' hcut hbound hread
    rw [heq, hcut.split]
    refine ⟨(filterMap_concat_prefix_iff recordLeaves pre r' (r :: post)).mpr hleaves, ?_⟩
    rintro ⟨x, hx, hxon⟩
    rcases List.mem_append.mp hx with hx | hx
    · exact ⟨x, List.mem_append_left _ hx, hxon⟩
    · obtain rfl := List.mem_singleton.mp hx
      rw [← hcut.split, ← exists_recordsEnabled_iff]
      exact hon hxon

end Fill

/-- **When a truncated log stays true.** Whatever the parser returns on a log cut at `k` and completed
with fill, its baseline is one the whole events of the true log give, iff the record the cut falls into
is harmless. -/
theorem fillStaysOut_iff (log : CcelLog) (terminated : Bool) {k : Nat}
    (hk : k < (terminatedEncode log terminated).length) {pad : UInt8} (hpad : pad ∈ paddingBytes)
    (n : Nat) : FillStaysOut log terminated k pad n ↔ FillHarmless log terminated k pad n := by
  constructor
  · intro h
    exact h.fillHarmless hk hpad
  · intro h machineType b hb
    obtain ⟨parsed, hparse, rfl⟩ := extractFromCcel_ok_iff.mp hb
    obtain ⟨hevents, henabled⟩ := h.of_parsed hk hpad hparse machineType
    have hflag : (extractEvents machineType parsed.events).securebootEnabled = true →
        ∃ e ∈ log.entries, RecordsEnabled e := by
      intro hon
      exact henabled (exists_recordsEnabled hon)
    exact ⟨hevents, exists_take_flag_iff.mpr hflag, hflag⟩

/-! ## A log that turns Secure Boot on by being cut -/

/-- The data of a SecureBoot variable that is off. -/
def secureBootOff : Bytes := buildUefiVariableData efiGlobalVariableGuid "SecureBoot" [0x00]

/-- The event of that variable. -/
def secureBootOffRecord : Event2Record :=
  ⟨1, evEfiVariableDriverConfig, [(tpmAlgSha384, List.replicate 48 0xAA)], secureBootOff⟩

/-- A log of that one event. -/
def secureBootOffLog : CcelLog where
  spec := sampleLog.spec
  events := [secureBootOffRecord]
  spec_wf := sampleLog.spec_wf
  events_wf := by
    intro r hr
    obtain rfl := List.mem_singleton.mp hr
    exact ⟨by decide, ⟨0, by decide, by decide⟩, by decide, by decide, by decide, by decide +kernel⟩

/-- The log cut ahead of its last byte, the value of the variable, and read on into a fill of ones. -/
def secureBootOnParsed : ParsedEventLog :=
  ⟨secureBootOffLog.digestSizes, secureBootOffLog.entries.map fun e =>
    if e.index = 1 then { e with eventData := secureBootOff.dropLast ++ [0xFF] } else e⟩

/-- The completed cut is accepted, with the flag set. -/
theorem parseEventLog_secureBootOff :
    parseEventLog (completedCut secureBootOffLog false 183 0xFF 1) = .ok secureBootOnParsed := by
  decide +kernel

/-- Completed with a zero the same cut gives back the disabled variable. -/
theorem fillStaysOut_iff_sample : FillStaysOut secureBootOffLog false 183 0x00 1 := by
  refine (fillStaysOut_iff secureBootOffLog false (by decide +kernel)
    (by decide : (0x00 : UInt8) ∈ paddingBytes) 1).mpr ?_
  intro pre r post r' hcut _ hread
  have hone : secureBootOffLog.events = pre ++ r :: post := hcut.split
  cases pre with
  | cons x pre =>
    have hlen := congrArg List.length hone
    rw [List.length_append, List.length_cons, List.length_cons] at hlen
    have : secureBootOffLog.events.length = 1 := rfl
    omega
  | nil =>
    obtain ⟨rfl, rfl⟩ := List.cons.inj hone
    have hsame : reread secureBootOffRecord
        ((completedCut secureBootOffLog false 183 0x00 1).drop
          (bodyStart secureBootOffLog [] secureBootOffRecord)) = some secureBootOffRecord := by
      decide +kernel
    obtain rfl := Option.some.inj (hsame.symm.trans hread)
    have hcomputable : recordLeaves secureBootOffRecord = none := by decide +kernel
    have hoff : ¬ RecordsEnabled (secureBootOffRecord.toEntry ccelRegister 0) := by decide +kernel
    refine ⟨fun e he => ?_, fun hon => absurd hon hoff⟩
    rw [hcomputable] at he
    cases he

/-- The value of the variable comes from the fill, and the baseline reports Secure Boot as enabled. -/
theorem not_fillStaysOut_enabled : ¬ FillStaysOut secureBootOffLog false 183 0xFF 1 := by
  intro h
  obtain ⟨-, -, hon⟩ := h "" _ (extractFromCcel_ok_iff.mpr ⟨_, parseEventLog_secureBootOff, rfl⟩)
  have hflag : (extractEvents "" secureBootOnParsed.events).securebootEnabled = true := by
    decide +kernel
  have hoff : ¬ ∃ e ∈ secureBootOffLog.entries, RecordsEnabled e := by
    decide +kernel
  exact hoff (hon hflag)

end CvmMeasure.Tdx
