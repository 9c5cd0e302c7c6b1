import CvmMeasure.Tdx.Rtmr

/-! # Truncated logs completed with fill

Cut a CCEL anywhere and pad it with fill. Lenient fields may be completed out of the fill with a
changed value, and the parser may still return. What cannot change is what a replay reads: a record is
only entered with its head below the fill boundary, which lies at or before the cut, and the head
already determines the register, the type and the digests (`Event2Record.head_inj`).

* **`records_of_cut`**: records guarded by the cut are the true ones, up to the one the cut falls into;
* **`exists_log_of_completedCut`**: so the parser reads another log off the cut one, with those records;
* **`truncated_prefix`**: the returned events are, as far as a replay goes, a prefix of the true ones. -/

namespace CvmMeasure.Tdx

open Binary Python Tcg

/-- The part of a record that its head determines. -/
def recordKey (r : Event2Record) : Nat × Nat × List (Nat × Bytes) := (r.rawIndex, r.eventType, r.digests)

/-- The events of a record list, as a replay reads them. -/
theorem map_replayKey_entriesFrom (reg : RegisterMap) (index : Nat) (rs : List Event2Record) :
    (entriesFrom reg index rs).map replayKey
      = (rs.map recordKey).map fun x => ((reg x.1).getD 0, x.2.1, x.2.2) := by
  induction rs generalizing index with
  | nil => rfl
  | cons r rs ih => rw [entriesFrom, List.map_cons, ih]; rfl

/-- Records with one key have one head. -/
theorem head_eq_of_recordKey {r r' : Event2Record} (h : recordKey r' = recordKey r) :
    r'.head = r.head := by
  simp only [recordKey, Prod.mk.injEq] at h
  rw [Event2Record.head, Event2Record.head, h.1, h.2.1, h.2.2]

/-- The cut at `k` falls into the record `r` of the records standing at `o`, behind its head. -/
structure CutIn (k o : Nat) (rs pre : List Event2Record) (r : Event2Record)
    (post : List Event2Record) : Prop where
  split : rs = pre ++ r :: post
  head_le : o + (pre.flatMap Event2Record.encode).length + r.head.length ≤ k
  lt_end : k < o + (pre.flatMap Event2Record.encode).length + r.encode.length

/-- A cut behind a first record. -/
theorem CutIn.cons {k o : Nat} {rs pre post : List Event2Record} {r x : Event2Record}
    (h : CutIn k (o + r.encode.length) rs pre x post) : CutIn k o (r :: rs) (r :: pre) x post := by
  have hhead := h.head_le
  have hend := h.lt_end
  refine ⟨by rw [h.split]; rfl, ?_, ?_⟩
  · rw [List.flatMap_cons, List.length_append]
    omega
  · rw [List.flatMap_cons, List.length_append]
    omega

/-- In two buffers that agree below `k`, a record read with its head below `k` has the key of the true
one; and once either ends below `k`, it is the true one. -/
theorem record_of_cut {reg : RegisterMap} {sizes : List (Nat × Nat)} {cut whole : Bytes} {k o : Nat}
    (hagree : cut.take k = whole.take k) {r r' : Event2Record} (hr : r.WellFormed reg sizes)
    (hr' : r'.WellFormed reg sizes) (hat : HasAt whole o r.encode) (hat' : HasAt cut o r'.encode)
    (hhead : o + r'.head.length ≤ k) :
    recordKey r' = recordKey r ∧
      (o + r.encode.length ≤ k ∨ o + r'.encode.length ≤ k → r = r') := by
  constructor
  · have hheadAt' : HasAt cut o r'.head := (List.prefix_append _ _).trans hat'
    have hheadAt : HasAt whole o r.head := (List.prefix_append _ _).trans hat
    obtain ⟨hraw, htype, hdigests⟩ :=
      Event2Record.head_inj hr hr' hheadAt (hheadAt'.congr hagree hhead)
    rw [recordKey, recordKey, hraw, htype, hdigests]
  · rintro (hle | hle)
    · exact Event2Record.encode_prefixFree reg sizes hr hr' (hat.congr hagree.symm hle) hat'
    · exact Event2Record.encode_prefixFree reg sizes hr hr' hat (hat'.congr hagree hle)

/-- **Guarded records are the true ones, up to the record the cut falls into.** In two buffers that
agree below `k`, records read from the first with their heads below `limit` are a prefix of those the
second holds, or such a prefix and one more record, which has the head of the one the cut falls into. -/
theorem records_of_cut {reg : RegisterMap} {sizes : List (Nat × Nat)} {cut whole rest : Bytes}
    {k limit o : Nat} (hagree : cut.take k = whole.take k) (hlimit : limit ≤ k)
    (hrest : rest.length < event2HeaderSize) {rs rs' : List Event2Record}
    (hrs : ∀ r ∈ rs, r.WellFormed reg sizes) (hrs' : ∀ r ∈ rs', r.WellFormed reg sizes)
    (hat : HasAt cut o (rs'.flatMap Event2Record.encode)) (hguard : Guarded limit o rs')
    (hwhole : whole.drop o = rs.flatMap Event2Record.encode ++ rest) :
    rs' <+: rs ∨ ∃ pre r post r', CutIn k o rs pre r post ∧ rs' = pre ++ [r'] ∧
      recordKey r' = recordKey r ∧
      o + (pre.flatMap Event2Record.encode).length + r.head.length ≤ limit := by
  -- induction on the records read from the cut buffer
  induction rs' generalizing rs o with
  | nil => exact Or.inl List.nil_prefix
  | cons r' rs' ih =>
    rw [List.flatMap_cons, hasAt_append] at hat
    obtain ⟨hhead', hguard⟩ := hguard
    cases rs with
    | nil =>
      -- behind the last true record there is no room for another header
      exfalso
      have hheadAt' : HasAt cut o r'.head := (List.prefix_append _ _).trans hat.1
      have hheadAt := hheadAt'.congr hagree (by omega)
      rw [HasAt, hwhole, List.flatMap_nil, List.nil_append] at hheadAt
      have hlen := hheadAt.length_le
      have hmin := r'.header_le_length_head
      omega
    | cons r rs =>
      rw [List.flatMap_cons, List.append_assoc] at hwhole
      have hrAt : HasAt whole o r.encode := by
        rw [HasAt, hwhole]
        exact List.prefix_append _ _
      obtain ⟨hkey, hsame⟩ := record_of_cut hagree (hrs r List.mem_cons_self)
        (hrs' r' List.mem_cons_self) hrAt hat.1 (hhead'.trans hlimit)
      by_cases hle : o + r.encode.length ≤ k
      · -- this record is the true one, and the rest is read behind it
        obtain rfl := hsame (Or.inl hle)
        have hdrop : whole.drop (o + r.encode.length) = rs.flatMap Event2Record.encode ++ rest := by
          rw [← List.drop_drop, hwhole, List.drop_left]
        rcases ih (fun x hx => hrs x (List.mem_cons_of_mem r hx))
            (fun x hx => hrs' x (List.mem_cons_of_mem r hx)) hat.2 hguard hdrop with
          hpre | ⟨pre, x, post, x', hcut, rfl, hkey', hlim⟩
        · exact Or.inl ((List.prefix_cons_inj r).mpr hpre)
        · refine Or.inr ⟨r :: pre, x, post, x', hcut.cons, rfl, hkey', ?_⟩
          rw [List.flatMap_cons, List.length_append]
          omega
      · -- the cut falls into this record, so no other is guarded behind it
        obtain rfl : rs' = [] := by
          cases rs' with
          | nil => rfl
          | cons r'' rs' =>
            have hnext := hguard.1
            rw [hsame (Or.inr (by omega))] at hle
            omega
        have hhead : r'.head.length = r.head.length := by rw [head_eq_of_recordKey hkey]
        refine Or.inr ⟨[], r, rs, r', ⟨rfl, ?_, ?_⟩, rfl, hkey, ?_⟩
        · rw [List.flatMap_nil, List.length_nil]
          omega
        · rw [List.flatMap_nil, List.length_nil]
          omega
        · rw [List.flatMap_nil, List.length_nil]
          omega

/-- The records ahead of the cut and one with the head of the record it falls into agree with the true
ones on their heads. -/
theorem CutIn.map_recordKey_prefix {k o : Nat} {rs pre post : List Event2Record} {r r' : Event2Record}
    (h : CutIn k o rs pre r post) (hkey : recordKey r' = recordKey r) :
    (pre ++ [r']).map recordKey <+: rs.map recordKey := by
  rw [h.split, List.map_append, List.map_append, List.map_cons, List.map_cons, hkey]
  exact ⟨post.map recordKey, by rw [List.append_assoc]; rfl⟩

/-- A log's bytes, optionally ended by the terminator. -/
def terminatedEncode (log : CcelLog) (terminated : Bool) : Bytes :=
  log.encode ++ if terminated then leBytes 4 logTerminator else []

/-- The first record survives any cut as far as a replay reads it, and whole if a further record
follows it. -/
theorem spec_of_agree {log log' : CcelLog} {cut whole rest rest' : Bytes} {k : Nat}
    (hagree : cut.take k = whole.take k) (hk : 28 ≤ k) (hcut : cut = log'.encode ++ rest')
    (hwhole : whole = log.encode ++ rest) :
    replayKey (log'.spec.toEntry ccelRegister) = replayKey (log.spec.toEntry ccelRegister) ∧
      (log'.spec.encode.length ≤ k → log'.spec = log.spec) := by
  have hspecAt' : HasAt cut 0 log'.spec.encode := by
    rw [HasAt, hcut, List.drop_zero, TcgLog.encode, List.append_assoc]
    exact List.prefix_append _ _
  have hspec : log.spec.encode <+: whole := by
    rw [hwhole, TcgLog.encode, List.append_assoc]
    exact List.prefix_append _ _
  constructor
  · -- the header ends before the cut
    have hlen := log.spec_wf.length_header
    have hlen' := log'.spec_wf.length_header
    have hheader' : log'.spec.header <+: whole := by
      have hcutAt : HasAt cut 0 log'.spec.header := (List.prefix_append _ _).trans hspecAt'
      have := hcutAt.congr hagree (by omega)
      rwa [HasAt, List.drop_zero] at this
    have hheader : log.spec.header <+: whole := (List.prefix_append _ _).trans hspec
    have heq := (List.prefix_of_prefix_length_le hheader' hheader (by omega)).eq_of_length (by omega)
    unfold SpecIdRecord.header at heq
    obtain ⟨hraw, heq⟩ := List.append_inj heq (by simp)
    obtain ⟨htype, hdigest⟩ := List.append_inj heq (by simp)
    have hraw' := leBytes_inj log'.spec_wf.rawIndex_lt log.spec_wf.rawIndex_lt hraw
    have htype' := leBytes_inj log'.spec_wf.eventType_lt log.spec_wf.eventType_lt htype
    simp only [replayKey, SpecIdRecord.toEntry, hraw', htype', hdigest]
  · intro hle
    have hat : HasAt whole 0 log'.spec.encode := hspecAt'.congr hagree (by omega)
    rw [HasAt, List.drop_zero] at hat
    exact SpecIdRecord.encode_prefixFree ccelRegister log'.spec_wf log.spec_wf hat hspec

/-- The bytes of a log cut at `k` and completed with `n` bytes of fill. -/
def completedCut (log : CcelLog) (terminated : Bool) (k : Nat) (pad : UInt8) (n : Nat) : Bytes :=
  (terminatedEncode log terminated).take k ++ List.replicate n pad

/-- A cut inside the log has its length. -/
theorem length_take_terminatedEncode {log : CcelLog} {terminated : Bool} {k : Nat}
    (hk : k < (terminatedEncode log terminated).length) :
    ((terminatedEncode log terminated).take k).length = k :=
  List.length_take_of_le hk.le

/-- Below the cut nothing has changed. -/
theorem take_completedCut {log : CcelLog} {terminated : Bool} {k : Nat}
    (hk : k < (terminatedEncode log terminated).length) (pad : UInt8) (n : Nat) :
    (completedCut log terminated k pad n).take k = (terminatedEncode log terminated).take k := by
  have hlen := length_take_terminatedEncode hk
  rw [completedCut, List.take_append_of_le_length hlen.ge, List.take_of_length_le hlen.le]

/-- **What the parser reads off a truncated log**: another log, with the true first record if it has
any further one, and with the true records up to the one the cut falls into. -/
theorem exists_log_of_completedCut {log : CcelLog} {terminated : Bool} {k : Nat}
    (hk : k < (terminatedEncode log terminated).length) {pad : UInt8} (hpad : pad ∈ paddingBytes)
    {n : Nat} {parsed : ParsedEventLog}
    (h : parseEventLog (completedCut log terminated k pad n) = .ok parsed) :
    ∃ log' : CcelLog, ∃ t : TableTail, completedCut log terminated k pad n = log'.encode ++ t.encode ∧
      parsed = ⟨log'.digestSizes, log'.entries⟩ ∧
      replayKey (log'.spec.toEntry ccelRegister) = replayKey (log.spec.toEntry ccelRegister) ∧
      (log'.events ≠ [] → log'.spec = log.spec) ∧
      (log'.events <+: log.events ∨
        ∃ pre r post r', CutIn k log.spec.encode.length log.events pre r post ∧
          log'.events = pre ++ [r'] ∧ recordKey r' = recordKey r ∧
          log.spec.encode.length + (pre.flatMap Event2Record.encode).length + r.head.length
            ≤ fillBoundary (completedCut log terminated k pad n)) := by
  obtain ⟨log', t, hcut, hlim, hguard, -, rfl⟩ := parseEventLog_ok_iff.mp h
  -- the fill boundary is at or before the cut
  have hboundary := paddingStart_append_run_le ((terminatedEncode log terminated).take k) hpad n
  rw [length_take_terminatedEncode hk] at hboundary
  have hagree := take_completedCut hk pad n
  obtain ⟨hkey, hspec⟩ := spec_of_agree hagree (hlim.trans hboundary) hcut rfl
  -- with a second event the first record was read whole
  have hspec' : log'.events ≠ [] → log'.spec = log.spec := by
    intro hne
    obtain ⟨r, rs, hevents⟩ := List.exists_cons_of_ne_nil hne
    rw [hevents] at hguard
    have hhead : log'.spec.encode.length + r.head.length ≤ k := hguard.1.trans hboundary
    exact hspec (by omega)
  refine ⟨log', t, hcut, rfl, hkey, hspec', ?_⟩
  by_cases hne : log'.events = []
  · rw [hne]
    exact Or.inl List.nil_prefix
  · have heq := hspec' hne
    have hwf' := log'.events_wf
    rw [heq] at hwf' hguard
    have hrest : (if terminated then leBytes 4 logTerminator else []).length < event2HeaderSize := by
      split <;> simp [event2HeaderSize]
    refine records_of_cut hagree hboundary hrest log.events_wf hwf' ?_ hguard ?_
    · rw [hcut, TcgLog.encode, heq, List.append_assoc]
      exact hasAt_middle _ _ _
    · rw [terminatedEncode, TcgLog.encode, List.append_assoc, List.drop_left]

/-- **A truncated CCEL cannot be completed with fill and replayed.** If the parser returns on a cut
log padded with fill, the registers, types and digests of the returned events are a prefix of the true
ones; so every replay of it is the replay of the first so many true events. -/
theorem truncated_prefix (log : CcelLog) (terminated : Bool) {k : Nat}
    (hk : k < (terminatedEncode log terminated).length) {pad : UInt8} (hpad : pad ∈ paddingBytes)
    (n : Nat) {parsed : ParsedEventLog}
    (h : parseEventLog ((terminatedEncode log terminated).take k ++ List.replicate n pad) = .ok parsed) :
    parsed.events.map replayKey <+: log.entries.map replayKey ∧
      ∃ m, ∀ (sha384 : Bytes → Bytes) (algoId : Nat), replayEventLog sha384 parsed algoId
        = replayEventLog sha384 ⟨log.digestSizes, log.entries.take m⟩ algoId := by
  obtain ⟨log', t, -, rfl, hkey, -, hevents⟩ := exists_log_of_completedCut hk hpad h
  have hstart : log'.entries.map replayKey <+: log.entries.map replayKey := by
    rw [TcgLog.entries, TcgLog.entries, List.map_cons, List.map_cons, hkey, List.prefix_cons_inj,
      map_replayKey_entriesFrom, map_replayKey_entriesFrom]
    apply List.IsPrefix.map
    rcases hevents with hpre | ⟨pre, r, post, r', hcut, heq, hrkey, -⟩
    · exact hpre.map recordKey
    · rw [heq]
      exact hcut.map_recordKey_prefix hrkey
  refine ⟨hstart, log'.entries.length, fun sha384 algoId => ?_⟩
  apply replayEvents_congr
  show log'.entries.map replayKey = (log.entries.take log'.entries.length).map replayKey
  have htake := List.prefix_iff_eq_take.mp hstart
  rwa [List.length_map, ← List.map_take] at htake

/-- The small log cut inside its last event data and completed with zeros: the data changes. -/
def sampleCut : ParsedEventLog :=
  ⟨sampleLog.digestSizes, sampleLog.entries.map fun e =>
    if e.index = 1 then { e with eventData := [0x01, 0x02, 0x00] } else e⟩

/-- The small log, cut inside its last record. -/
theorem truncated_prefix_sample :
    sampleCut.events.map replayKey <+: sampleLog.entries.map replayKey ∧
      ∃ m, ∀ (sha384 : Bytes → Bytes) (algoId : Nat), replayEventLog sha384 sampleCut algoId
        = replayEventLog sha384 ⟨sampleLog.digestSizes, sampleLog.entries.take m⟩ algoId :=
  truncated_prefix sampleLog true (k := 133) (by decide +kernel)
    (by decide : (0x00 : UInt8) ∈ paddingBytes) 16 (by decide +kernel)

end CvmMeasure.Tdx
