import CvmMeasure.Tcg.Padding

/-! # The vTPM event log

`eventlog.py`: a vTPM log records the PCR number itself and is exactly sized. `parse_event_log` says so
by passing `tolerate_padding=False`, but that flag only moves the cursor's limit: the check of the
bytes behind the last event is shared with the padded CCEL and is made regardless.

* **`AcceptsExactly`**: on this input the parser does what its documentation says;
* **`IsSlack`**: the trailing bytes it accepts beyond that;
* **`acceptsExactly_iff`**: the documented behaviour holds exactly where no log with slack is read. -/

namespace CvmMeasure.AzureSnp

open Binary Python Tcg

def numPcrs : Nat := 24

/-- `_validated_pcr_index`: reject an event addressed to a register the TPM does not have. -/
def validatedPcrIndex : RegisterIndexFn := fun pcrIndex => do
  let offset ← get
  refuseIf (pcrIndex ≥ numPcrs)
    (.valueError
      s!"Event before offset {offset} records PCRIndex {pcrIndex}, but a TPM only has {numPcrs} PCRs")
  pure (pcrIndex : Int)

/-- `parse_event_log`: parse a raw `binary_bios_measurements` log into structured events. -/
def parseEventLog (data : Bytes) : Py ParsedEventLog := do
  let (digestSizes, events) ← parseEvents data "Event log" validatedPcrIndex false
  pure { digestSizes, events }

/-! ## The vTPM log as an instance of the grammar -/

/-- The registers of a TPM: PCR 0 to 23. -/
def pcrRegister : RegisterMap := fun pcrIndex =>
  if pcrIndex < numPcrs then some (pcrIndex : Int) else none

/-- A PCR index below 24 is that of its register. -/
theorem pcrRegister_eq_some {pcrIndex : Nat} {i : Int} :
    pcrRegister pcrIndex = some i ↔ pcrIndex < 24 ∧ i = (pcrIndex : Int) := by
  unfold pcrRegister numPcrs
  split <;> simp <;> omega

/-- The terminator is no PCR index. -/
theorem pcrRegister_terminator : pcrRegister logTerminator = none := by decide

/-- The check of a PCR index is the map of registers. -/
theorem validatedPcrIndex_implements : Implements validatedPcrIndex pcrRegister := by
  constructor
  · intro raw o o' i
    unfold validatedPcrIndex
    have hnum : numPcrs = 24 := rfl
    simp only [run_bind_ok, run_get_ok, run_refuseIf_ok, run_pure_ok, pcrRegister_eq_some]
    constructor
    · rintro ⟨_, _, ⟨rfl, rfl⟩, _, _, ⟨hlt, rfl⟩, rfl, rfl⟩
      exact ⟨⟨by omega, rfl⟩, rfl⟩
    · rintro ⟨⟨hlt, rfl⟩, rfl⟩
      exact ⟨o', o', ⟨rfl, rfl⟩, (), o', ⟨by omega, rfl⟩, rfl, rfl⟩
  · intro raw
    unfold validatedPcrIndex
    exact raisesOnlyValueError_get.andThen fun _ =>
      (raisesOnlyValueError_refuseIf _ _).andThen fun _ => raisesOnlyValueError_pure _

/-- A well-formed vTPM log. -/
abbrev VtpmLog := TcgLog pcrRegister

/-- Every record of a log in the buffer lies below the buffer's end. -/
theorem guarded_of_hasAt {data : Bytes} {o : Nat} {rs : List Event2Record} (ho : o ≤ data.length)
    (hat : HasAt data o (rs.flatMap Event2Record.encode)) : Guarded data.length o rs := by
  induction rs generalizing o with
  | nil => trivial
  | cons r rs ih =>
    rw [List.flatMap_cons, hasAt_append] at hat
    have hend := hat.1.end_le_of_le ho
    have hlen := r.length_encode
    exact ⟨by omega, ih hend hat.2⟩

/-- **The vTPM parser against the grammar.** It reads a log and a table tail, like the CCEL parser,
provided no further record could start with the tail. -/
theorem parseEventLog_ok_iff {data : Bytes} {parsed : ParsedEventLog} :
    parseEventLog data = .ok parsed ↔
      ∃ log : VtpmLog, ∃ t : TableTail, data = log.encode ++ t.encode ∧ EndsRecords t.encode ∧
        parsed = ⟨log.digestSizes, log.entries⟩ := by
  have hlimit : (eventsCursor data "Event log" false).limit = data.length := rfl
  unfold parseEventLog
  simp only [bind_eq_ok, Prod.exists, pure_eq_ok,
    parseEvents_ok_iff validatedPcrIndex_implements pcrRegister_terminator, hlimit]
  have hstops : ∀ (log : VtpmLog) (t : TableTail), data = log.encode ++ t.encode →
      (Stops (eventsCursor data "Event log" false) log.encode.length ↔ EndsRecords t.encode) := by
    intro log t hdata
    have hlen := congrArg List.length hdata
    rw [List.length_append] at hlen
    unfold Stops EndsRecords
    rw [hlimit, eventsCursor_data, HasAt, hdata, List.drop_left, List.length_append]
    exact or_congr (by omega) Iff.rfl
  constructor
  · rintro ⟨_, _, ⟨log, t, hdata, -, -, hstop, rfl, rfl⟩, rfl⟩
    exact ⟨log, t, hdata, (hstops log t hdata).mp hstop, rfl⟩
  · rintro ⟨log, t, hdata, hends, rfl⟩
    have hspec := log.spec_wf.length_encode
    have hlen := congrArg List.length hdata
    rw [List.length_append, TcgLog.encode, List.length_append] at hlen
    have hat : HasAt data log.spec.encode.length (log.events.flatMap Event2Record.encode) := by
      rw [hdata, TcgLog.encode, List.append_assoc]
      exact hasAt_middle _ _ _
    exact ⟨_, _, ⟨log, t, hdata, by omega, guarded_of_hasAt (by omega) hat,
      (hstops log t hdata).mpr hends, rfl, rfl⟩, rfl⟩

/-- The vTPM parser refuses with `ValueError` only. -/
theorem parseEventLog_raises {data : Bytes} {e : PyError} (h : parseEventLog data = .error e) :
    e.IsValueError := by
  unfold parseEventLog at h
  rcases bind_eq_error.mp h with h | ⟨_, -, h⟩
  · exact parseEvents_raises validatedPcrIndex_implements h
  · cases h

/-! ## Exactly sized logs -/

/-- What the documentation asks of an input that parses to `parsed`: a log and nothing else, or a log
and the terminator. -/
def ExactlySized (data : Bytes) (parsed : ParsedEventLog) : Prop :=
  ∃ log : VtpmLog, (data = log.encode ∨ data = log.encode ++ leBytes 4 logTerminator) ∧
    parsed = ⟨log.digestSizes, log.entries⟩

/-- **The documented language.** The parser returns exactly on the exactly sized logs, with their
events, and refuses everything else with `ValueError`. -/
def AcceptsExactly (data : Bytes) : Prop :=
  (∀ parsed, parseEventLog data = .ok parsed ↔ ExactlySized data parsed) ∧
    ((¬ ∃ parsed, ExactlySized data parsed) →
      ∃ message, parseEventLog data = .error (.valueError message))

/-- **Slack**: the bytes accepted behind the last event that are neither nothing nor the terminator.
Up to eleven zeros, too few for a record header; any run of `0xFF`, whose first four bytes pass for a
terminator; a terminator and zeros. -/
def IsSlack (bs : Bytes) : Prop :=
  (∃ n, 1 ≤ n ∧ n < event2HeaderSize ∧ bs = List.replicate n 0x00) ∨
    (∃ n, 1 ≤ n ∧ n ≠ 4 ∧ bs = List.replicate n 0xFF) ∨
      ∃ n, 1 ≤ n ∧ bs = leBytes 4 logTerminator ++ List.replicate n 0x00

/-- The terminator is four bytes `0xFF`. -/
theorem terminator_eq_replicate : leBytes 4 logTerminator = List.replicate 4 0xFF := by decide

/-- Slack is not empty, -/
theorem IsSlack.ne_nil {bs : Bytes} (h : IsSlack bs) : bs ≠ [] := by
  apply List.ne_nil_of_length_pos
  rcases h with ⟨n, hn, -, rfl⟩ | ⟨n, hn, -, rfl⟩ | ⟨n, hn, rfl⟩ <;>
    simp only [List.length_append, List.length_replicate, leBytes_length] <;> omega

/-- and not the terminator. -/
theorem IsSlack.ne_terminator {bs : Bytes} (h : IsSlack bs) : bs ≠ leBytes 4 logTerminator := by
  intro heq
  have hlen := congrArg List.length heq
  rw [leBytes_length] at hlen
  rcases h with ⟨n, hn, -, rfl⟩ | ⟨n, -, hne, rfl⟩ | ⟨n, hn, rfl⟩
  · -- four zeros are not the terminator
    rw [List.length_replicate] at hlen
    rw [hlen] at heq
    exact absurd heq (by decide)
  · exact hne (by rwa [List.length_replicate] at hlen)
  · rw [List.length_append, leBytes_length, List.length_replicate] at hlen
    omega

/-- Slack is a table tail the loop stops in front of. -/
theorem IsSlack.exists_tableTail {bs : Bytes} (h : IsSlack bs) :
    EndsRecords bs ∧ ∃ t : TableTail, bs = t.encode := by
  rcases h with ⟨n, -, hlt, rfl⟩ | ⟨n, -, -, rfl⟩ | ⟨n, -, rfl⟩
  · exact ⟨Or.inl (by rwa [List.length_replicate]), ⟨false, 0x00, n, by decide⟩,
      by simp [TableTail.encode]⟩
  · refine ⟨?_, ⟨false, 0xFF, n, by decide⟩, by simp [TableTail.encode]⟩
    by_cases hn : n < event2HeaderSize
    · exact Or.inl (by rwa [List.length_replicate])
    · right
      rw [event2HeaderSize] at hn
      rw [terminator_eq_replicate, show n = 4 + (n - 4) by omega, List.replicate_add]
      exact List.prefix_append _ _
  · exact ⟨Or.inr (List.prefix_append _ _), ⟨true, 0x00, n, by decide⟩, rfl⟩

/-- A table tail the loop stops in front of is nothing, the terminator, or slack. -/
theorem tableTail_cases {t : TableTail} (hends : EndsRecords t.encode) :
    t.encode = [] ∨ t.encode = leBytes 4 logTerminator ∨ IsSlack t.encode := by
  obtain ⟨terminated, pad, n, hpad⟩ := t
  by_cases hn : n = 0
  · subst hn
    cases terminated with
    | false => exact Or.inl rfl
    | true => exact Or.inr (Or.inl (by simp [TableTail.encode]))
  have hcases : pad = 0xFF ∨ pad = 0x00 := by simpa [paddingBytes] using hpad
  cases terminated with
  | true =>
    right
    right
    simp only [TableTail.encode, if_true]
    rcases hcases with rfl | rfl
    · refine Or.inr (Or.inl ⟨4 + n, by omega, by omega, ?_⟩)
      rw [terminator_eq_replicate, List.replicate_add]
    · exact Or.inr (Or.inr ⟨n, by omega, rfl⟩)
  | false =>
    simp only [TableTail.encode, Bool.false_eq_true, if_false, List.nil_append] at hends ⊢
    rcases hcases with rfl | rfl
    · by_cases hfour : n = 4
      · subst hfour
        exact Or.inr (Or.inl terminator_eq_replicate.symm)
      · exact Or.inr (Or.inr (Or.inr (Or.inl ⟨n, by omega, hfour, rfl⟩)))
    · -- zeros do not start a terminator, so fewer than a header's bytes are left
      refine Or.inr (Or.inr (Or.inl ⟨n, by omega, ?_, rfl⟩))
      rcases hends with hlen | hterm
      · rwa [List.length_replicate] at hlen
      · exfalso
        rw [terminator_eq_replicate] at hterm
        have hmem : (0xFF : UInt8) ∈ List.replicate n (0x00 : UInt8) := hterm.subset (by simp)
        exact absurd (List.eq_of_mem_replicate hmem) (by decide)

/-- The end of the log ends the records, -/
theorem endsRecords_nil : EndsRecords [] := Or.inl (by decide)

/-- and so does the terminator. -/
theorem endsRecords_terminator : EndsRecords (leBytes 4 logTerminator) := Or.inl (by decide)

/-- An exactly sized log is read back. -/
theorem parseEventLog_of_exactlySized {data : Bytes} {parsed : ParsedEventLog}
    (h : ExactlySized data parsed) : parseEventLog data = .ok parsed := by
  obtain ⟨log, hdata, rfl⟩ := h
  rcases hdata with rfl | rfl
  · exact parseEventLog_ok_iff.mpr
      ⟨log, TableTail.nothing, by simp, by simpa using endsRecords_nil, rfl⟩
  · exact parseEventLog_ok_iff.mpr
      ⟨log, TableTail.terminator, by simp, by simpa using endsRecords_terminator, rfl⟩

/-- A log with slack is read, although it is not exactly sized. -/
theorem not_acceptsExactly_of_slack {log : VtpmLog} {slack : Bytes} (h : IsSlack slack) :
    ¬ AcceptsExactly (log.encode ++ slack) := by
  rintro ⟨hiff, -⟩
  obtain ⟨hends, t, ht⟩ := h.exists_tableTail
  have hread : parseEventLog (log.encode ++ slack) = .ok ⟨log.digestSizes, log.entries⟩ :=
    parseEventLog_ok_iff.mpr ⟨log, t, by rw [ht], ht ▸ hends, rfl⟩
  -- were it exactly sized, the slack would be nothing or the terminator
  obtain ⟨log', hdata, -⟩ := (hiff _).mp hread
  rcases hdata with hdata | hdata
  · have hsplit : log.encode ++ slack = log'.encode ++ [] := by rwa [List.append_nil]
    exact h.ne_nil (TcgLog.append_inj pcrRegister_terminator hends endsRecords_nil hsplit).2
  · exact h.ne_terminator
      (TcgLog.append_inj pcrRegister_terminator hends endsRecords_terminator hdata).2

/-- **The exact language of the vTPM parser.** It is the documented one on an input iff the input is
not a well-formed log followed by slack. -/
theorem acceptsExactly_iff (data : Bytes) :
    AcceptsExactly data ↔ ¬ ∃ (log : VtpmLog) (slack : Bytes), IsSlack slack ∧
      data = log.encode ++ slack := by
  constructor
  · rintro hacc ⟨log, slack, hslack, rfl⟩
    exact not_acceptsExactly_of_slack hslack hacc
  · intro hno
    -- without slack the tail the parser accepts is a documented one
    have hiff : ∀ parsed, parseEventLog data = .ok parsed ↔ ExactlySized data parsed := by
      intro parsed
      refine ⟨fun hread => ?_, parseEventLog_of_exactlySized⟩
      obtain ⟨log, t, hdata, hends, rfl⟩ := parseEventLog_ok_iff.mp hread
      rcases tableTail_cases hends with hnil | hterm | hslack
      · exact ⟨log, Or.inl (by rw [hdata, hnil, List.append_nil]), rfl⟩
      · exact ⟨log, Or.inr (by rw [hdata, hterm]), rfl⟩
      · exact absurd ⟨log, t.encode, hslack, hdata⟩ hno
    refine ⟨hiff, fun hnone => ?_⟩
    cases hread : parseEventLog data with
    | ok parsed => exact absurd ⟨parsed, (hiff parsed).mp hread⟩ hnone
    | error e =>
      obtain ⟨message, rfl⟩ := (parseEventLog_raises hread).exists_message
      exact ⟨message, rfl⟩

/-- A small log: one algorithm, one event measured into PCR 7. -/
def sampleLog : VtpmLog where
  spec := ⟨0, evNoAction, List.replicate 20 0x00,
    ⟨List.replicate 8 0x00, [(tpmAlgSha256, 32)], []⟩⟩
  events := [⟨7, evSeparator, [(tpmAlgSha256, List.replicate 32 0xAA)], [0x00, 0x00, 0x00, 0x00]⟩]
  spec_wf :=
    { rawIndex_lt := by decide
      register := by decide
      eventType_lt := by decide
      legacyDigest_length := by decide
      payload :=
        { platform_length := by decide
          algos_ne_nil := by decide
          algos_valid := by
            intro a ha
            obtain rfl := List.mem_singleton.mp ha
            exact ⟨by decide, by decide, by decide, by decide⟩
          ids_nodup := by decide
          vendorInfo_lt := by decide } }
  events_wf := by
    intro r hr
    obtain rfl := List.mem_singleton.mp hr
    exact ⟨by decide, ⟨7, by decide, by decide⟩, by decide, by decide, by decide, by decide⟩

/-- One zero byte behind the small log is read, though the log is not exactly sized. -/
theorem not_acceptsExactly_trailing_zero : ¬ AcceptsExactly (sampleLog.encode ++ [0x00]) :=
  not_acceptsExactly_of_slack (Or.inl ⟨1, by decide, by decide, rfl⟩)

end CvmMeasure.AzureSnp
