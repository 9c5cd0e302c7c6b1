import CvmMeasure.Tcg.Padding

/-! # The TDX CC event log

`ccel.py`: a CCEL records the RTMR index plus one, and sits in an ACPI table that ends in fill. Over
the grammar instantiated at that numbering, the parser is

* **complete** (`parseEventLog_encode`): it reads back every well-formed log followed by any table
  tail, except exactly when the last digest of the log reaches into the stripped fill;
* **sound** (`parseEventLog_sound`): whatever it returns re-encodes to the bytes it read. -/

namespace CvmMeasure.Tdx

open Binary Python Tcg

/-- MrIndex is the RTMR index plus one; index 0 belongs to informational records. -/
def maxMrIndex : Nat := 4

/-- `_validated_imr_index`: convert MrIndex to an RTMR index. -/
def validatedImrIndex : RegisterIndexFn := fun mrIndex => do
  let offset ← get
  refuseIf (mrIndex > maxMrIndex)
    (.valueError
      s!"Event before offset {offset} records MrIndex {mrIndex}, but TDX only has {maxMrIndex} measurement register(s)")
  pure ((mrIndex : Int) - 1)

/-- `parse_event_log`: parse a raw CCEL into structured events. -/
def parseEventLog (data : Bytes) : Py ParsedEventLog := do
  let (digestSizes, events) ← parseEvents data "Event log" validatedImrIndex true
  pure { digestSizes, events }

/-! ## The CCEL as an instance of the grammar -/

/-- The registers of a CCEL: MrIndex 0 to 4, meaning register -1 to 3. -/
def ccelRegister : RegisterMap := fun mrIndex =>
  if mrIndex ≤ maxMrIndex then some ((mrIndex : Int) - 1) else none

/-- An MrIndex up to four is that of the register below it. -/
theorem ccelRegister_eq_some {mrIndex : Nat} {i : Int} :
    ccelRegister mrIndex = some i ↔ mrIndex ≤ 4 ∧ i = (mrIndex : Int) - 1 := by
  unfold ccelRegister maxMrIndex
  split <;> simp <;> omega

/-- The terminator is no MrIndex. -/
theorem ccelRegister_terminator : ccelRegister logTerminator = none := by decide

/-- The check of an MrIndex is the map of registers. -/
theorem validatedImrIndex_implements : Implements validatedImrIndex ccelRegister := by
  constructor
  · intro raw o o' i
    unfold validatedImrIndex
    have hmax : maxMrIndex = 4 := rfl
    simp only [run_bind_ok, run_get_ok, run_refuseIf_ok, run_pure_ok, ccelRegister_eq_some]
    constructor
    · rintro ⟨_, _, ⟨rfl, rfl⟩, _, _, ⟨hle, rfl⟩, rfl, rfl⟩
      exact ⟨⟨by omega, rfl⟩, rfl⟩
    · rintro ⟨⟨hle, rfl⟩, rfl⟩
      exact ⟨o', o', ⟨rfl, rfl⟩, (), o', ⟨by omega, rfl⟩, rfl, rfl⟩
  · intro raw
    unfold validatedImrIndex
    exact raisesOnlyValueError_get.andThen fun _ =>
      (raisesOnlyValueError_refuseIf _ _).andThen fun _ => raisesOnlyValueError_pure _

/-- A well-formed CCEL. -/
abbrev CcelLog := TcgLog ccelRegister

/-- **The CCEL parser against the grammar.** -/
theorem parseEventLog_ok_iff {data : Bytes} {parsed : ParsedEventLog} :
    parseEventLog data = .ok parsed ↔
      ∃ log : CcelLog, ∃ t : TableTail, data = log.encode ++ t.encode ∧ 28 ≤ fillBoundary data ∧
        Guarded (fillBoundary data) log.spec.encode.length log.events ∧
        Stops (eventsCursor data "Event log" true) log.encode.length ∧
        parsed = ⟨log.digestSizes, log.entries⟩ := by
  unfold parseEventLog
  simp only [bind_eq_ok, Prod.exists, pure_eq_ok,
    parseEvents_ok_iff validatedImrIndex_implements ccelRegister_terminator, eventsCursor_limit]
  constructor
  · rintro ⟨_, _, ⟨log, t, hdata, hlim, hguard, hstop, rfl, rfl⟩, rfl⟩
    exact ⟨log, t, hdata, hlim, hguard, hstop, rfl⟩
  · rintro ⟨log, t, hdata, hlim, hguard, hstop, rfl⟩
    exact ⟨_, _, ⟨log, t, hdata, hlim, hguard, hstop, rfl, rfl⟩, rfl⟩

/-- The CCEL parser refuses with `ValueError` only. -/
theorem parseEventLog_raises {data : Bytes} {e : PyError} (h : parseEventLog data = .error e) :
    e.IsValueError := by
  unfold parseEventLog at h
  rcases bind_eq_error.mp h with h | ⟨_, -, h⟩
  · exact parseEvents_raises validatedImrIndex_implements h
  · cases h

/-- `parse_event_log` always answers: it returns or raises `ValueError`. -/
theorem parseEventLog_ok_or_valueError (data : Bytes) :
    (∃ parsed, parseEventLog data = .ok parsed) ∨
      ∃ message, parseEventLog data = .error (.valueError message) := by
  cases h : parseEventLog data with
  | ok parsed => exact Or.inl ⟨parsed, rfl⟩
  | error e =>
    obtain ⟨message, rfl⟩ := (parseEventLog_raises h).exists_message
    exact Or.inr ⟨message, rfl⟩

/-! ## Records are never fill

The index 0 records of a CCEL are informational, so no record starts with eight equal fill bytes. -/

/-- A run of one padding byte, as a number of four bytes: zero or the terminator. -/
theorem leNat_padding {pad : UInt8} (hpad : pad ∈ paddingBytes) :
    pad = 0x00 ∧ leNat (List.replicate 4 pad) = 0 ∨
      pad = 0xFF ∧ leNat (List.replicate 4 pad) = logTerminator := by
  simp only [paddingBytes, List.mem_cons, List.not_mem_nil, or_false] at hpad
  rcases hpad with rfl | rfl
  · exact Or.inr ⟨rfl, by decide⟩
  · exact Or.inl ⟨rfl, by decide⟩

/-- **No record of a CCEL starts with eight copies of a fill byte.** -/
theorem record_not_padding {sizes : List (Nat × Nat)} {r : Event2Record} {data : Bytes} {o : Nat}
    {pad : UInt8} (hr : r.WellFormed ccelRegister sizes) (hat : HasAt data o r.encode)
    (hpad : pad ∈ paddingBytes) : ¬ HasAt data o (List.replicate 8 pad) := by
  intro hrun
  rw [show List.replicate 8 pad = List.replicate 4 pad ++ List.replicate 4 pad by
    rw [← List.replicate_add], hasAt_append, List.length_replicate] at hrun
  simp only [Event2Record.encode, Event2Record.head, hasAt_append, leBytes_length] at hat
  obtain ⟨⟨hraw, htype, -⟩, -⟩ := hat
  have hraw' := congrArg leNat (hraw.eq_of_length_eq hrun.1 (by simp))
  have htype' := congrArg leNat (htype.eq_of_length_eq hrun.2 (by simp))
  rw [leNat_leBytes hr.rawIndex_lt] at hraw'
  rw [leNat_leBytes hr.eventType_lt] at htype'
  obtain ⟨i, hreg, hi⟩ := hr.register
  obtain ⟨hle, rfl⟩ := ccelRegister_eq_some.mp hreg
  rcases leNat_padding hpad with ⟨-, hzero⟩ | ⟨-, hones⟩
  · -- index 0 and type 0: not an EV_NO_ACTION record
    rw [hzero] at hraw' htype'
    have := hi (by rw [htype']; decide)
    omega
  · rw [hones, logTerminator] at hraw'
    omega

/-- A record starts before the fill boundary. -/
theorem record_lt_fillBoundary {sizes : List (Nat × Nat)} {r : Event2Record} {data : Bytes} {o : Nat}
    (hr : r.WellFormed ccelRegister sizes) (hat : HasAt data o r.encode) : o < fillBoundary data := by
  by_contra hle
  have hend := hat.end_le r.encode_ne_nil
  have hlen := r.length_encode
  have hhead := r.header_le_length_head
  rw [event2HeaderSize] at hhead
  obtain ⟨pad, hpad, hrun⟩ :=
    hasAt_of_fillBoundary_le (n := 8) (Nat.le_of_not_lt hle) (by omega) (by omega)
  exact record_not_padding hr hat hpad hrun

/-- A record does not stand where only a table tail is left. -/
theorem record_not_tail {sizes : List (Nat × Nat)} {r : Event2Record} {data : Bytes} {o : Nat}
    (hr : r.WellFormed ccelRegister sizes) (hat : HasAt data o r.encode) {t : TableTail} :
    data.drop o ≠ t.encode := by
  intro ht
  obtain ⟨terminated, pad, n, hpad⟩ := t
  cases terminated with
  | true =>
    -- no record starts with the terminator
    refine hr.not_terminator ccelRegister_terminator hat ?_
    rw [ht]
    exact List.prefix_append _ _
  | false =>
    -- nor with as much fill as its own length
    have hlen := hat.length_le
    have hrec := r.length_encode
    have hhead := r.header_le_length_head
    simp only [TableTail.encode, Bool.false_eq_true, if_false, List.nil_append] at ht
    rw [ht, List.length_replicate] at hlen
    rw [event2HeaderSize] at hhead
    refine record_not_padding hr hat hpad ?_
    rw [HasAt, ht, show n = 8 + (n - 8) by omega, List.replicate_add]
    exact List.prefix_append _ _

/-- The signature of the first record lies before the fill boundary. -/
theorem spec_lt_fillBoundary (log : CcelLog) (rest : Bytes) :
    32 < fillBoundary (log.encode ++ rest) := by
  have hheader := log.spec_wf.length_header
  have hat : HasAt (log.encode ++ rest) 32 (specIdSignature) := by
    have hwhole : HasAt (log.encode ++ rest) 0 log.encode := List.prefix_append _ _
    simp only [TcgLog.encode, SpecIdRecord.encode, SpecIdPayload.encode, hasAt_append, hheader,
      leBytes_length] at hwhole
    exact hwhole.1.2.2.1
  -- the first letter of the signature is no fill byte
  have hbyte := hat.getElem? (i := 0) (by decide)
  rw [Nat.add_zero, show specIdSignature[0]? = some 0x53 by decide] at hbyte
  exact lt_paddingStart_of_getElem? hbyte (by decide)

/-! ## Completeness -/

/-- Where the last digest of the last event ends, or that event's header if it has no digest. A log of
the SpecIdEvent alone ends with that record's 20-byte digest. -/
def lastDigestEnd (log : CcelLog) : Nat :=
  match log.events.getLast? with
  | none => 28
  | some r => log.encode.length - r.encode.length + r.head.length

/-- Only the last record's head can reach past the boundary: the next record starts before it. -/
theorem guarded_iff_last {sizes : List (Nat × Nat)} {data : Bytes} {o : Nat}
    {rs : List Event2Record} (hrs : ∀ r ∈ rs, r.WellFormed ccelRegister sizes)
    (hat : HasAt data o (rs.flatMap Event2Record.encode)) :
    Guarded (fillBoundary data) o rs ↔
      ∀ r, rs.getLast? = some r →
        o + (rs.flatMap Event2Record.encode).length - r.encode.length + r.head.length
          ≤ fillBoundary data := by
  -- induction on the records; with a successor the guard of a record is for free
  induction rs generalizing o with
  | nil => simp [Guarded]
  | cons r rs ih =>
    rw [List.flatMap_cons, hasAt_append] at hat
    have hrs' : ∀ x ∈ rs, x.WellFormed ccelRegister sizes :=
      fun x hx => hrs x (List.mem_cons_of_mem _ hx)
    rw [Guarded, length_flatMap_encode_cons]
    cases rs with
    | nil =>
      simp only [Guarded, and_true, List.getLast?_singleton, Option.some.injEq, forall_eq',
        List.flatMap_nil, List.length_nil]
      omega
    | cons r' rs =>
      rw [ih hrs' hat.2, List.getLast?_cons_cons]
      have hnext : o + r.encode.length < fillBoundary data := by
        refine record_lt_fillBoundary (hrs' r' List.mem_cons_self) ?_
        have := hat.2
        rw [List.flatMap_cons, hasAt_append] at this
        exact this.1
      have hlen := r.length_encode
      constructor
      · rintro ⟨-, hlast⟩ x hx
        have := hlast x hx
        omega
      · intro hlast
        refine ⟨by omega, fun x hx => ?_⟩
        have := hlast x hx
        omega

/-- For a whole log the guard is one inequality about its last digest. -/
theorem guarded_iff_lastDigestEnd_le (log : CcelLog) (rest : Bytes) :
    Guarded (fillBoundary (log.encode ++ rest)) log.spec.encode.length log.events ↔
      lastDigestEnd log ≤ fillBoundary (log.encode ++ rest) := by
  have hspec := spec_lt_fillBoundary log rest
  have hat : HasAt (log.encode ++ rest) log.spec.encode.length
      (log.events.flatMap Event2Record.encode) := by
    have hwhole : HasAt (log.encode ++ rest) 0 log.encode := List.prefix_append _ _
    rw [TcgLog.encode, hasAt_append, Nat.zero_add] at hwhole
    exact hwhole.2
  rw [guarded_iff_last log.events_wf hat]
  unfold lastDigestEnd
  cases hlast : log.events.getLast? with
  | none =>
    simp only [reduceCtorEq, false_implies, implies_true, true_iff]
    omega
  | some r =>
    rw [TcgLog.encode, List.length_append]
    simp

/-- After the last event of a log in its table the loop stops: at most a terminator lies between it
and the fill. -/
theorem stops_after_log (log : CcelLog) (t : TableTail) :
    Stops (eventsCursor (log.encode ++ t.encode) "Event log" true) log.encode.length := by
  left
  rw [eventsCursor_limit, TableTail.encode, ← List.append_assoc]
  have hle := paddingStart_append_run_le
    (log.encode ++ if t.terminated then leBytes 4 logTerminator else []) t.pad_mem t.count
  rw [List.length_append] at hle
  have hterm : (if t.terminated then leBytes 4 logTerminator else []).length ≤ 4 := by
    split <;> simp
  rw [event2HeaderSize]
  omega

/-- Whatever the parser returns on a log in its table, the log's last digest ends before the fill. -/
theorem lastDigestEnd_le_of_ok {log : CcelLog} {t : TableTail} {parsed : ParsedEventLog}
    (h : parseEventLog (log.encode ++ t.encode) = .ok parsed) :
    lastDigestEnd log ≤ fillBoundary (log.encode ++ t.encode) := by
  obtain ⟨log', t', hdata, -, hguard, -, -⟩ := parseEventLog_ok_iff.mp h
  rw [← guarded_iff_lastDigestEnd_le]
  obtain ⟨hspec, hcomp⟩ := TcgLog.comparable (List.prefix_append log.encode t.encode)
    (hdata ▸ List.prefix_append log'.encode t'.encode)
  rw [← hspec] at hguard
  rcases hcomp with hpre | ⟨more, hmore⟩
  · -- the parser read all of the log's records, and guarded each
    obtain ⟨more, hmore⟩ := hpre
    rw [← hmore] at hguard
    exact hguard.of_append
  · cases more with
    | nil =>
      rw [List.append_nil] at hmore
      rwa [hmore] at hguard
    | cons r more =>
      -- it stopped in front of a record, which is no table tail
      exfalso
      have hsplit : log.encode = log'.encode ++ (r.encode ++ more.flatMap Event2Record.encode) := by
        rw [TcgLog.encode, ← hmore, List.flatMap_append, List.flatMap_cons, TcgLog.encode, hspec,
          List.append_assoc]
      have hr := log.events_wf r (by rw [← hmore]; simp)
      have hrAt : HasAt (log.encode ++ t.encode) log'.encode.length r.encode := by
        rw [hsplit, List.append_assoc, List.append_assoc]
        exact hasAt_middle _ _ _
      refine record_not_tail hr hrAt (t := t') ?_
      rw [hdata, List.drop_left]

/-- A log whose last digest ends before the fill is read back. -/
theorem parseEventLog_of_lastDigestEnd_le {log : CcelLog} {t : TableTail}
    (hle : lastDigestEnd log ≤ fillBoundary (log.encode ++ t.encode)) :
    parseEventLog (log.encode ++ t.encode) = .ok ⟨log.digestSizes, log.entries⟩ := by
  have hspec := spec_lt_fillBoundary log t.encode
  exact parseEventLog_ok_iff.mpr ⟨log, t, rfl, by omega,
    (guarded_iff_lastDigestEnd_le log t.encode).mpr hle, stops_after_log log t, rfl⟩

/-- **CCEL completeness.** On a well-formed log followed by any table tail the parser returns exactly
the log's digest sizes and events, unless the last digest of its last event (or that event's header)
reaches into the stripped fill; then it raises `ValueError`. -/
theorem parseEventLog_encode (log : CcelLog) (t : TableTail) :
    (parseEventLog (log.encode ++ t.encode) = .ok ⟨log.digestSizes, log.entries⟩ ↔
      lastDigestEnd log ≤ fillBoundary (log.encode ++ t.encode)) ∧
    ((∃ message, parseEventLog (log.encode ++ t.encode) = .error (.valueError message)) ↔
      fillBoundary (log.encode ++ t.encode) < lastDigestEnd log) := by
  refine ⟨⟨lastDigestEnd_le_of_ok, parseEventLog_of_lastDigestEnd_le⟩, ?_, ?_⟩
  · rintro ⟨message, herr⟩
    by_contra hle
    rw [parseEventLog_of_lastDigestEnd_le (Nat.le_of_not_lt hle)] at herr
    cases herr
  · intro hlt
    rcases parseEventLog_ok_or_valueError (log.encode ++ t.encode) with ⟨parsed, hparsed⟩ | herr
    · exact absurd (lastDigestEnd_le_of_ok hparsed) (by omega)
    · exact herr

/-! ## Soundness -/

/-- Re-encode a returned first event as a `TCG_PCClientPCREvent` with its legacy digest. -/
def encodeFirstEntry (e : EventLogEntry) : Bytes :=
  leBytes 4 (e.registerIndex + 1).toNat ++ (leBytes 4 e.eventType ++
    ((e.digest? 0x0000).getD [] ++ (leBytes 4 e.eventData.length ++ e.eventData)))

/-- Re-encode a returned later event as a `TCG_PCR_EVENT2`. -/
def encodeEntry (e : EventLogEntry) : Bytes :=
  leBytes 4 (e.registerIndex + 1).toNat ++ (leBytes 4 e.eventType ++
    (leBytes 4 e.digests.length ++ (e.digests.flatMap encodeDigest ++
      (leBytes 4 e.eventData.length ++ e.eventData))))

/-- What every returned first event satisfies: its fields fit their widths and its one digest is the
20-byte legacy digest. -/
structure ValidFirstEntry (e : EventLogEntry) : Prop where
  index : e.index = 0
  register : -1 ≤ e.registerIndex ∧ e.registerIndex ≤ 3
  eventType_lt : e.eventType < 256 ^ 4
  digests : ∃ legacy : Bytes, legacy.length = 20 ∧ e.digests = [(0x0000, legacy)]
  eventData_lt : e.eventData.length < 256 ^ 4

/-- What every returned later event satisfies: its fields fit their widths, and its digests are of
distinct algorithms, each at the declared or built-in length. -/
structure ValidEntry (sizes : List (Nat × Nat)) (e : EventLogEntry) : Prop where
  register : -1 ≤ e.registerIndex ∧ e.registerIndex ≤ 3
  measured : e.eventType ≠ evNoAction → 0 ≤ e.registerIndex
  eventType_lt : e.eventType < 256 ^ 4
  digest_valid : ∀ d ∈ e.digests, ValidDigest sizes d
  ids_nodup : (e.digests.map Prod.fst).Nodup
  eventData_lt : e.eventData.length < 256 ^ 4

/-- A CCEL register recovers the recorded index. -/
theorem toNat_ccelRegister {mrIndex : Nat} (h : (ccelRegister mrIndex).isSome) :
    ((ccelRegister mrIndex).getD 0 + 1).toNat = mrIndex ∧
      -1 ≤ (ccelRegister mrIndex).getD 0 ∧ (ccelRegister mrIndex).getD 0 ≤ 3 := by
  obtain ⟨i, hi⟩ := Option.isSome_iff_exists.mp h
  obtain ⟨hle, rfl⟩ := ccelRegister_eq_some.mp hi
  rw [hi, Option.getD_some]
  omega

/-- The first entry is written as its record was, -/
theorem encodeFirstEntry_toEntry {r : SpecIdRecord} (hr : r.WellFormed ccelRegister) :
    encodeFirstEntry (r.toEntry ccelRegister) = r.encode := by
  simp only [encodeFirstEntry, SpecIdRecord.toEntry, (toNat_ccelRegister hr.register).1,
    EventLogEntry.digest?, List.lookup_cons_self, Option.getD_some, SpecIdRecord.encode,
    SpecIdRecord.header, List.append_assoc]

/-- and so is every other one. -/
theorem encodeEntry_toEntry {sizes : List (Nat × Nat)} {r : Event2Record}
    (hr : r.WellFormed ccelRegister sizes) (index : Nat) :
    encodeEntry (r.toEntry ccelRegister index) = r.encode := by
  simp only [encodeEntry, Event2Record.toEntry, (toNat_ccelRegister hr.register_isSome).1,
    Event2Record.encode, Event2Record.head, List.append_assoc]

/-- The entry of a well-formed first record is valid, -/
theorem validFirstEntry_toEntry {r : SpecIdRecord} (hr : r.WellFormed ccelRegister) :
    ValidFirstEntry (r.toEntry ccelRegister) :=
  ⟨rfl, (toNat_ccelRegister hr.register).2, hr.eventType_lt,
    ⟨r.legacyDigest, hr.legacyDigest_length, rfl⟩, hr.payload.length_encode_lt⟩

/-- and so is that of every other record. -/
theorem validEntry_toEntry {sizes : List (Nat × Nat)} {r : Event2Record}
    (hr : r.WellFormed ccelRegister sizes) (index : Nat) :
    ValidEntry sizes (r.toEntry ccelRegister index) := by
  obtain ⟨i, hreg, hi⟩ := hr.register
  refine ⟨(toNat_ccelRegister hr.register_isSome).2, ?_, hr.eventType_lt, hr.digest_valid, hr.ids_nodup,
    hr.eventData_lt⟩
  simpa only [Event2Record.toEntry, hreg, Option.getD_some] using hi

/-- The records of a log, re-encoded from the events they stand for. -/
theorem flatMap_encodeEntry_entriesFrom {sizes : List (Nat × Nat)} {rs : List Event2Record}
    (hrs : ∀ r ∈ rs, r.WellFormed ccelRegister sizes) (index : Nat) :
    (entriesFrom ccelRegister index rs).flatMap encodeEntry = rs.flatMap Event2Record.encode := by
  induction rs generalizing index with
  | nil => rfl
  | cons r rs ih =>
    rw [entriesFrom, List.flatMap_cons, List.flatMap_cons,
      encodeEntry_toEntry (hrs r List.mem_cons_self),
      ih fun x hx => hrs x (List.mem_cons_of_mem r hx)]

/-- The events of a log are numbered in order. -/
theorem map_index_entriesFrom (reg : RegisterMap) (index : Nat) (rs : List Event2Record) :
    (entriesFrom reg index rs).map EventLogEntry.index = List.range' index rs.length := by
  induction rs generalizing index with
  | nil => rfl
  | cons r rs ih => rw [entriesFrom, List.map_cons, ih, List.length_cons, List.range'_succ]; rfl

/-- A small log: one algorithm, one event measured into RTMR[0]. -/
def sampleLog : CcelLog where
  spec := ⟨0, evNoAction, List.replicate 20 0x00,
    ⟨List.replicate 8 0x00, [(tpmAlgSha384, 48)], []⟩⟩
  events := [⟨1, evEfiVariableDriverConfig, [(tpmAlgSha384, List.replicate 48 0xAA)],
    [0x01, 0x02, 0x03]⟩]
  spec_wf :=
    { rawIndex_lt := by decide
      register := by decide
      eventType_lt := by decide
      legacyDigest_length := by decide
      payload :=
        { platform_length := by decide
          algos_ne_nil := by decide
          algos_valid := by
            intro a ha
            obtain rfl := List.mem_singleton.mp ha
            exact ⟨by decide, by decide, by decide, by decide⟩
          ids_nodup := by decide
          vendorInfo_lt := by decide } }
  events_wf := by
    intro r hr
    obtain rfl := List.mem_singleton.mp hr
    exact ⟨by decide, ⟨0, by decide, by decide⟩, by decide, by decide, by decide, by decide⟩

/-- What the parser reads off the small log. -/
def sampleParsed : ParsedEventLog := ⟨sampleLog.digestSizes, sampleLog.entries⟩

/-- **CCEL soundness.** Re-encoding the returned events, in order, gives back the bytes that were
read; what follows them is a table tail. The digest sizes are those the first event declares. -/
theorem parseEventLog_sound {data : Bytes} {parsed : ParsedEventLog}
    (h : parseEventLog data = .ok parsed) :
    ∃ first later, ∃ t : TableTail, parsed.events = first :: later ∧
      data = (encodeFirstEntry first ++ later.flatMap encodeEntry) ++ t.encode ∧
      ValidFirstEntry first ∧ parseDigestSizes first.eventData = .ok parsed.digestSizes ∧
      (∀ e ∈ later, ValidEntry parsed.digestSizes e) ∧
      later.map EventLogEntry.index = List.range' 1 later.length := by
  obtain ⟨log, t, hdata, -, -, -, rfl⟩ := parseEventLog_ok_iff.mp h
  refine ⟨log.spec.toEntry ccelRegister, entriesFrom ccelRegister 1 log.events, t, rfl, ?_,
    validFirstEntry_toEntry log.spec_wf, ?_, ?_, ?_⟩
  · rw [hdata, encodeFirstEntry_toEntry log.spec_wf, flatMap_encodeEntry_entriesFrom log.events_wf,
      TcgLog.encode]
  · exact parseDigestSizes_ok_iff.mpr ⟨log.spec.payload, log.spec_wf.payload, rfl, rfl⟩
  · intro e he
    obtain ⟨r, hr, i, rfl⟩ := mem_entriesFrom he
    exact validEntry_toEntry (log.events_wf r hr) i
  · have hidx := map_index_entriesFrom ccelRegister 1 log.events
    have hlen := congrArg List.length hidx
    rw [List.length_map, List.length_range'] at hlen
    rw [hidx, hlen]

/-- The small log in a table with a terminator and four bytes of fill. -/
theorem parseEventLog_sound_sample :
    ∃ first later, ∃ t : TableTail, sampleParsed.events = first :: later ∧
      sampleLog.encode ++ List.replicate 8 0xFF
        = (encodeFirstEntry first ++ later.flatMap encodeEntry) ++ t.encode ∧
      ValidFirstEntry first ∧ parseDigestSizes first.eventData = .ok sampleParsed.digestSizes ∧
      (∀ e ∈ later, ValidEntry sampleParsed.digestSizes e) ∧
      later.map EventLogEntry.index = List.range' 1 later.length :=
  parseEventLog_sound (by decide +kernel)

end CvmMeasure.Tdx
