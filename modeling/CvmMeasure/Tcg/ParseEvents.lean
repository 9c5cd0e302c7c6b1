import CvmMeasure.Tcg.DigestSizes

/-! # `parse_events` against the grammar

One specification lemma for each function of the event parser, over a tight cursor and a register
numbering that `toRegisterIndex` implements. Each says that the function returns iff well-formed bytes
stand at the offset, subject to the two conditions the cursor's limit adds:

* the record loop is only entered, and digests are only read, below the limit: `Guarded`;
* the loop stops where fewer than twelve bytes are left below the limit or a terminator stands:
  `Stops`.

`parseEvents_ok_iff` assembles them: the parser returns on a buffer iff the buffer is a well-formed
log followed by a tail, and then it returns that log's sizes and events. -/

namespace CvmMeasure.Tcg

open Binary Python

/-- `toRegisterIndex` computes the numbering `reg` and refuses everything else with `ValueError`. -/
structure Implements (toRegisterIndex : RegisterIndexFn) (reg : RegisterMap) : Prop where
  ok_iff : ∀ {raw o o' : Nat} {i : Int},
    toRegisterIndex raw o = .ok i o' ↔ reg raw = some i ∧ o' = o
  raises : ∀ raw, RaisesOnlyValueError (fun _ => True) (toRegisterIndex raw)

/-! ## The first record -/

/-- **Specification of `_parse_spec_id_event`**: a well-formed record stands at the offset, its legacy
digest below the limit. -/
theorem parseSpecIdEvent_ok_iff {c : Cursor} (h : c.Tight) {toReg : RegisterIndexFn}
    {reg : RegisterMap} (himp : Implements toReg reg) {o o' : Nat} {e : EventLogEntry}
    {sizes : List (Nat × Nat)} :
    parseSpecIdEvent c 0 toReg o = .ok (e, sizes) o' ↔
      ∃ r : SpecIdRecord, r.WellFormed reg ∧ HasAt c.data o r.encode ∧ o + 28 ≤ c.limit ∧
        o' = o + r.encode.length ∧ e = r.toEntry reg ∧ sizes = r.payload.algos := by
  unfold parseSpecIdEvent
  simp only [run_bind_ok, h.u32_ok_iff, h.takeLenient_ok_iff, h.take_ok_iff, himp.ok_iff,
    run_liftPy_ok, run_pure_ok, parseDigestSizes_ok_iff, Prod.mk.injEq]
  constructor
  · rintro ⟨raw, _, ⟨hraw, hrawAt, rfl⟩, type, _, ⟨htype, htypeAt, rfl⟩, digest, _,
      ⟨hdigest, hdigestAt, rfl, hlim⟩, size, _, ⟨hsize, hsizeAt, rfl⟩, data, _,
      ⟨hdata, hdataAt, rfl⟩, i, _, ⟨hreg, rfl⟩, _, _, ⟨⟨p, hp, rfl, rfl⟩, rfl⟩, ⟨rfl, rfl⟩, rfl⟩
    have hwf : SpecIdRecord.WellFormed reg ⟨raw, type, digest, p⟩ :=
      ⟨hraw, by rw [hreg]; rfl, htype, hdigest, hp⟩
    refine ⟨⟨raw, type, digest, p⟩, hwf, ?_, ?_, ?_, ?_, rfl⟩
    · simp only [SpecIdRecord.encode, SpecIdRecord.header, hasAt_append, List.length_append,
        leBytes_length, hdigest, hdata]
      exact ⟨⟨hrawAt, htypeAt, hdigestAt⟩, hsizeAt, hdataAt⟩
    · simp only [Cursor.bound, if_true] at hlim
      omega
    · rw [hwf.length_encode, ← hdata]
      show o + 4 + 4 + 20 + 4 + p.encode.length = o + (32 + p.encode.length)
      omega
    · simp only [SpecIdRecord.toEntry, hreg, Option.getD_some]
  · rintro ⟨r, hr, hat, hlim, rfl, rfl, rfl⟩
    obtain ⟨i, hreg⟩ := Option.isSome_iff_exists.mp hr.register
    have hlen := hr.length_encode
    simp only [SpecIdRecord.encode, SpecIdRecord.header, hasAt_append, List.length_append,
      leBytes_length, hr.legacyDigest_length] at hat
    obtain ⟨⟨hrawAt, htypeAt, hdigestAt⟩, hsizeAt, hdataAt⟩ := hat
    refine ⟨_, _, ⟨hr.rawIndex_lt, hrawAt, rfl⟩, _, _, ⟨hr.eventType_lt, htypeAt, rfl⟩, _, _,
      ⟨hr.legacyDigest_length, hdigestAt, rfl, ?_⟩, _, _,
      ⟨hr.payload.length_encode_lt, hsizeAt, rfl⟩, _, _, ⟨rfl, hdataAt, rfl⟩, i, _, ⟨hreg, rfl⟩, _,
      _, ⟨⟨r.payload, hr.payload, rfl, rfl⟩, rfl⟩, ⟨?_, rfl⟩, ?_⟩
    · simp only [Cursor.bound, if_true]
      omega
    · simp only [SpecIdRecord.toEntry, hreg, Option.getD_some]
    · omega

/-! ## Digests -/

/-- A digest is never empty. -/
theorem digestSizeOf_pos {sizes : List (Nat × Nat)} {id n : Nat}
    (h : digestSizeOf sizes id = some n) : 0 < n := by
  have hbuiltin : ∀ {m}, algoDigestSizes.lookup id = some m → 0 < m := by
    intro m hm
    have hall : ∀ a ∈ algoDigestSizes, 0 < a.2 := by decide
    obtain ⟨l₁, l₂, hsplit, -⟩ := List.lookup_eq_some_iff.mp hm
    exact hall (id, m) (by rw [hsplit]; simp)
  unfold digestSizeOf at h
  split at h
  · exact hbuiltin h
  · exact hbuiltin h
  · rename_i size hne _
    rw [Option.some.injEq] at h
    subst h
    exact Nat.pos_of_ne_zero fun hzero => hne (by rw [hzero])

/-- One round of the digest loop reads one digest, below the limit and of a new algorithm. -/
theorem digestsLoop_succ_ok_iff {c : Cursor} (h : c.Tight) {sizes : List (Nat × Nat)} {n o o' : Nat}
    {acc digests : List (Nat × Bytes)} :
    digestsLoop c sizes (n + 1) acc o = .ok digests o' ↔
      ∃ d, ValidDigest sizes d ∧ d.1 ∉ acc.map Prod.fst ∧ HasAt c.data o (encodeDigest d) ∧
        o + (encodeDigest d).length ≤ c.limit ∧
        digestsLoop c sizes n (acc ++ [d]) (o + (encodeDigest d).length) = .ok digests o' := by
  rw [digestsLoop]
  simp only [run_bind_ok, run_get_ok, h.u16_ok_iff, length_encodeDigest, ← Nat.add_assoc]
  constructor
  · rintro ⟨_, _, ⟨rfl, rfl⟩, id, _, ⟨hid, hidAt, rfl⟩, hrest⟩
    -- an unknown algorithm is refused
    cases hsize : digestSizeOf sizes id with
    | none =>
      rw [hsize] at hrest
      exact absurd hrest run_throw_ne_ok
    | some dsz =>
      rw [hsize] at hrest
      simp only [run_bind_ok, run_refuseIf_ok, h.take_ok_iff] at hrest
      obtain ⟨_, _, ⟨hnew, rfl⟩, digest, _, ⟨rfl, hdigestAt, rfl, hlim⟩, hrest⟩ := hrest
      have hpos := digestSizeOf_pos hsize
      simp only [Cursor.bound, if_true] at hlim
      refine ⟨(id, digest), ⟨hid, hsize⟩, hnew, ?_, hlim.resolve_left hpos.ne', hrest⟩
      rw [encodeDigest, hasAt_append, leBytes_length]
      exact ⟨hidAt, hdigestAt⟩
  · rintro ⟨⟨id, digest⟩, ⟨hid, hsize⟩, hnew, hat, hlim, hrest⟩
    rw [encodeDigest, hasAt_append, leBytes_length] at hat
    refine ⟨o, o, ⟨rfl, rfl⟩, id, _, ⟨hid, hat.1, rfl⟩, ?_⟩
    have hsize' : digestSizeOf sizes id = some digest.length := hsize
    rw [hsize']
    simp only [run_bind_ok, run_refuseIf_ok, h.take_ok_iff]
    exact ⟨(), _, ⟨hnew, rfl⟩, digest, _, ⟨rfl, hat.2, rfl, Or.inr hlim⟩, hrest⟩

/-- **Specification of the digest loop**: it consumes `n` digests of known distinct algorithms, the
last of them ending below the limit, and appends them. -/
theorem digestsLoop_ok_iff {c : Cursor} (h : c.Tight) {sizes : List (Nat × Nat)} {n o o' : Nat}
    {acc digests : List (Nat × Bytes)} (hacc : (acc.map Prod.fst).Nodup) :
    digestsLoop c sizes n acc o = .ok digests o' ↔
      ∃ ds, digests = acc ++ ds ∧ ds.length = n ∧ (∀ d ∈ ds, ValidDigest sizes d) ∧
        ((acc ++ ds).map Prod.fst).Nodup ∧ HasAt c.data o (ds.flatMap encodeDigest) ∧
        o' = o + (ds.flatMap encodeDigest).length ∧ (ds ≠ [] → o' ≤ c.limit) := by
  -- induction on the number of digests left; the accumulator keeps its ids distinct
  induction n generalizing acc o o' digests with
  | zero =>
    rw [digestsLoop, run_pure_ok]
    constructor
    · rintro ⟨rfl, rfl⟩
      exact ⟨[], by simp, rfl, by simp, by simpa using hacc, by simp, rfl, by simp⟩
    · rintro ⟨ds, rfl, hlen, -, -, -, rfl, -⟩
      rw [List.length_eq_zero_iff] at hlen
      subst hlen
      exact ⟨by simp, rfl⟩
  | succ n ih =>
    rw [digestsLoop_succ_ok_iff h]
    constructor
    · rintro ⟨d, hd, hnew, hdAt, hlim, hrest⟩
      obtain ⟨ds, rfl, hcount, hvalid, hnd, hat, rfl, hend⟩ :=
        (ih (nodup_ids_concat.mpr ⟨hnew, hacc⟩)).mp hrest
      rw [List.append_assoc, List.singleton_append] at hnd ⊢
      refine ⟨d :: ds, rfl, by rw [List.length_cons, hcount], List.forall_mem_cons.mpr ⟨hd, hvalid⟩,
        hnd, ?_, ?_, fun _ => ?_⟩
      · rw [List.flatMap_cons, hasAt_append]
        exact ⟨hdAt, hat⟩
      · rw [List.flatMap_cons, List.length_append, Nat.add_assoc]
      · -- the last digest decides: this one, or the last of those behind it
        by_cases hds : ds = []
        · rw [hds]
          exact hlim
        · exact hend hds
    · rintro ⟨ds, rfl, hcount, hvalid, hnd, hat, rfl, hend⟩
      obtain _ | ⟨d, ds⟩ := ds
      · cases hcount
      rw [List.flatMap_cons, hasAt_append] at hat
      rw [List.flatMap_cons, List.length_append, ← Nat.add_assoc] at hend ⊢
      rw [List.append_cons] at hnd ⊢
      obtain ⟨hd, hvalid⟩ := List.forall_mem_cons.mp hvalid
      have hacc' := nodup_ids_of_append hnd
      refine ⟨d, hd, (nodup_ids_concat.mp hacc').1, hat.1, ?_, (ih hacc').mpr
        ⟨ds, rfl, Nat.succ.inj hcount, hvalid, hnd, hat.2, rfl, fun _ => hend (List.cons_ne_nil d ds)⟩⟩
      have := hend (List.cons_ne_nil d ds)
      omega

/-! ## One later record -/

/-- Each digest takes at least three bytes, so a count that is read in full passes the bound. -/
theorem three_mul_le_length_flatMap {sizes : List (Nat × Nat)} {ds : List (Nat × Bytes)}
    (hvalid : ∀ d ∈ ds, ValidDigest sizes d) :
    ds.length * 3 ≤ (ds.flatMap encodeDigest).length := by
  induction ds with
  | nil => simp
  | cons d ds ih =>
    have hd := digestSizeOf_pos (hvalid d List.mem_cons_self).2
    have := ih fun x hx => hvalid x (List.mem_cons_of_mem _ hx)
    rw [List.flatMap_cons, List.length_append, length_encodeDigest, List.length_cons]
    omega

/-- **Specification of `_parse_event2`**: a well-formed record stands at the offset, its digests below
the limit. -/
theorem parseEvent2_ok_iff {c : Cursor} (h : c.Tight) {toReg : RegisterIndexFn} {reg : RegisterMap}
    (himp : Implements toReg reg) {sizes : List (Nat × Nat)} {index o o' : Nat} {e : EventLogEntry} :
    parseEvent2 c index sizes toReg o = .ok e o' ↔
      ∃ r : Event2Record, r.WellFormed reg sizes ∧ HasAt c.data o r.encode ∧
        (r.digests ≠ [] → o + r.head.length ≤ c.limit) ∧ o' = o + r.encode.length ∧
        e = r.toEntry reg index := by
  unfold parseEvent2
  have hnil : (([] : List (Nat × Bytes)).map Prod.fst).Nodup := List.nodup_nil
  simp only [run_bind_ok, h.u32_ok_iff, Cursor.boundedCount_ok_iff,
    digestsLoop_ok_iff h hnil, h.takeLenient_ok_iff, himp.ok_iff, run_get_ok,
    run_refuseIf_ok, run_pure_ok, List.nil_append]
  constructor
  · rintro ⟨raw, _, ⟨hraw, hrawAt, rfl⟩, type, _, ⟨htype, htypeAt, rfl⟩, count, _,
      ⟨hcount, hcountAt, rfl⟩, _, _, ⟨rfl, rfl, -⟩, digests, _,
      ⟨_, rfl, hlen, hvalid, hnd, hdigestsAt, rfl, hend⟩, size, _, ⟨hsize, hsizeAt, rfl⟩, data, _,
      ⟨hdata, hdataAt, rfl⟩, i, _, ⟨hreg, rfl⟩, _, _, ⟨rfl, rfl⟩, _, _, ⟨hmeasured, rfl⟩, rfl, rfl⟩
    -- the last refusal: a measured record names a register
    have hi : type ≠ evNoAction → 0 ≤ i := by
      intro hne
      by_contra hneg
      exact hmeasured ⟨hne, by omega⟩
    refine ⟨⟨raw, type, digests, data⟩,
      ⟨hraw, ⟨i, hreg, hi⟩, htype, hvalid, hnd, hdata ▸ hsize⟩, ?_, ?_, ?_, ?_⟩
    · simp only [Event2Record.encode, Event2Record.head, hasAt_append, List.length_append,
        leBytes_length, hlen, hdata]
      exact ⟨⟨hrawAt, htypeAt, hcountAt, hdigestsAt⟩,
        by rw [show o + (4 + (4 + (4 + (digests.flatMap encodeDigest).length)))
            = o + 4 + 4 + 4 + (digests.flatMap encodeDigest).length by omega]
           exact ⟨hsizeAt, hdataAt⟩⟩
    · intro hne
      have := hend hne
      rw [Event2Record.length_head, event2HeaderSize]
      show o + (12 + (digests.flatMap encodeDigest).length) ≤ c.limit
      omega
    · rw [Event2Record.length_encode, Event2Record.length_head, event2HeaderSize]
      show o + 4 + 4 + 4 + (digests.flatMap encodeDigest).length + 4 + size
        = o + (12 + (digests.flatMap encodeDigest).length + 4 + data.length)
      omega
    · simp only [Event2Record.toEntry, hreg, Option.getD_some]
  · rintro ⟨r, hr, hat, hlim, rfl, rfl⟩
    obtain ⟨i, hreg, hi⟩ := hr.register
    have hlen := r.length_encode
    have hhead := r.length_head
    rw [event2HeaderSize] at hhead
    simp only [Event2Record.encode, Event2Record.head, hasAt_append, List.length_append,
      leBytes_length] at hat
    obtain ⟨⟨hrawAt, htypeAt, hcountAt, hdigestsAt⟩, hsizeAt, hdataAt⟩ := hat
    have hroom := hdataAt.end_le_of_le (hsizeAt.end_le (List.ne_nil_of_length_pos (by simp)) |>.trans'
      (by simp))
    -- three bytes for each digest, so the declared count passes its bound
    have hthree := three_mul_le_length_flatMap hr.digest_valid
    rw [show o + (4 + (4 + (4 + (r.digests.flatMap encodeDigest).length)))
      = o + 4 + 4 + 4 + (r.digests.flatMap encodeDigest).length by omega] at hsizeAt hdataAt hroom
    refine ⟨_, _, ⟨hr.rawIndex_lt, hrawAt, rfl⟩, _, _, ⟨hr.eventType_lt, htypeAt, rfl⟩, _, _,
      ⟨hr.count_lt, hcountAt, rfl⟩, _, _, ⟨rfl, rfl, ?_⟩, r.digests, _,
      ⟨r.digests, rfl, rfl, hr.digest_valid, hr.ids_nodup, hdigestsAt, rfl, ?_⟩, _, _,
      ⟨hr.eventData_lt, hsizeAt, rfl⟩, _, _, ⟨rfl, hdataAt, rfl⟩, i, _, ⟨hreg, rfl⟩, _, _,
      ⟨rfl, rfl⟩, (), _, ⟨?_, rfl⟩, ?_, ?_⟩
    · rw [Cursor.inBuffer]
      omega
    · intro hne
      have := hlim hne
      omega
    · rintro ⟨hne, hneg⟩
      have := hi hne
      omega
    · simp only [Event2Record.toEntry, hreg, Option.getD_some]
    · omega

/-! ## The event loop -/

/-- Every record of the list, standing one after the other from `o`, has its head below the limit. -/
def Guarded (limit : Nat) : Nat → List Event2Record → Prop
  | _, [] => True
  | o, r :: rs => o + r.head.length ≤ limit ∧ Guarded limit (o + r.encode.length) rs

/-- Records that are guarded are guarded without those behind them. -/
theorem Guarded.of_append {limit o : Nat} {rs more : List Event2Record}
    (h : Guarded limit o (rs ++ more)) : Guarded limit o rs := by
  induction rs generalizing o with
  | nil => trivial
  | cons r rs ih => exact ⟨h.1, ih h.2⟩

/-- The loop stops at `o`: fewer than twelve bytes are left below the limit, or a terminator stands
there. -/
def Stops (c : Cursor) (o : Nat) : Prop :=
  c.limit < o + event2HeaderSize ∨ HasAt c.data o (leBytes 4 logTerminator)

/-- The loop condition in one inequality. -/
theorem loopCondition_iff {c : Cursor} {o : Nat} :
    o < c.limit ∧ event2HeaderSize ≤ c.remaining o ↔ o + event2HeaderSize ≤ c.limit := by
  unfold Cursor.remaining event2HeaderSize
  omega

/-- The encoded records of a list, in length. -/
theorem length_flatMap_encode_cons (r : Event2Record) (rs : List Event2Record) :
    ((r :: rs).flatMap Event2Record.encode).length
      = r.encode.length + (rs.flatMap Event2Record.encode).length := by
  rw [List.flatMap_cons, List.length_append]

/-- A well-formed record does not start like a terminator. -/
theorem Event2Record.WellFormed.rawIndex_ne {reg : RegisterMap} {sizes : List (Nat × Nat)}
    {r : Event2Record} (hr : r.WellFormed reg sizes) (hterm : reg logTerminator = none) :
    r.rawIndex ≠ logTerminator := by
  intro heq
  obtain ⟨i, hreg, -⟩ := hr.register
  rw [heq, hterm] at hreg
  cases hreg

/-- One round of the event loop stops, or reads one record whose head stands below the limit. -/
theorem parseEventsLoop_succ_ok_iff {c : Cursor} (h : c.Tight) {toReg : RegisterIndexFn}
    {reg : RegisterMap} (himp : Implements toReg reg) (hterm : reg logTerminator = none)
    {sizes : List (Nat × Nat)} {fuel index o o' : Nat} {acc es : List EventLogEntry} :
    parseEventsLoop c sizes toReg (fuel + 1) index acc o = .ok es o' ↔
      (Stops c o ∧ acc = es ∧ o = o') ∨
      ∃ r : Event2Record, r.WellFormed reg sizes ∧ HasAt c.data o r.encode ∧
        o + r.head.length ≤ c.limit ∧
        parseEventsLoop c sizes toReg fuel (index + 1) (acc ++ [r.toEntry reg index])
          (o + r.encode.length) = .ok es o' := by
  rw [parseEventsLoop]
  simp only [run_bind_ok, run_get_ok]
  -- whether a header fits below the limit decides if the loop peeks at all
  by_cases hcond : o + event2HeaderSize ≤ c.limit
  · constructor
    · rintro ⟨_, _, ⟨rfl, rfl⟩, hrun⟩
      rw [if_pos (loopCondition_iff.mpr hcond)] at hrun
      simp only [run_bind_ok, h.peekU32_ok_iff] at hrun
      obtain ⟨raw, _, ⟨-, hrawAt, rfl⟩, hrun⟩ := hrun
      by_cases hraw : raw = logTerminator
      · rw [if_pos hraw, run_pure_ok] at hrun
        exact Or.inl ⟨Or.inr (hraw ▸ hrawAt), hrun.1, hrun.2⟩
      · rw [if_neg hraw] at hrun
        simp only [run_bind_ok, parseEvent2_ok_iff h himp] at hrun
        obtain ⟨_, _, ⟨r, hr, hat, hlim, rfl, rfl⟩, hrun⟩ := hrun
        refine Or.inr ⟨r, hr, hat, ?_, hrun⟩
        -- without digests the head is the header the loop condition asked for
        by_cases hd : r.digests = []
        · rw [Event2Record.length_head, hd]
          simpa using hcond
        · exact hlim hd
    · intro hround
      refine ⟨o, o, ⟨rfl, rfl⟩, ?_⟩
      rw [if_pos (loopCondition_iff.mpr hcond)]
      simp only [run_bind_ok, h.peekU32_ok_iff]
      rcases hround with ⟨hstop | hstop, rfl, rfl⟩ | ⟨r, hr, hat, hhead, hrest⟩
      · omega
      · refine ⟨logTerminator, o, ⟨by decide, hstop, rfl⟩, ?_⟩
        rw [if_pos rfl, run_pure_ok]
        exact ⟨rfl, rfl⟩
      · have hrawAt : HasAt c.data o (leBytes 4 r.rawIndex) := by
          simp only [Event2Record.encode, Event2Record.head, hasAt_append] at hat
          exact hat.1.1
        refine ⟨r.rawIndex, o, ⟨hr.rawIndex_lt, hrawAt, rfl⟩, ?_⟩
        rw [if_neg (hr.rawIndex_ne hterm)]
        simp only [run_bind_ok, parseEvent2_ok_iff h himp]
        exact ⟨_, _, ⟨r, hr, hat, fun _ => hhead, rfl, rfl⟩, hrest⟩
  · constructor
    · rintro ⟨_, _, ⟨rfl, rfl⟩, hrun⟩
      rw [if_neg (fun hc => hcond (loopCondition_iff.mp hc)), run_pure_ok] at hrun
      exact Or.inl ⟨Or.inl (Nat.lt_of_not_le hcond), hrun.1, hrun.2⟩
    · intro hround
      refine ⟨o, o, ⟨rfl, rfl⟩, ?_⟩
      rw [if_neg (fun hc => hcond (loopCondition_iff.mp hc)), run_pure_ok]
      rcases hround with ⟨-, hes, ho'⟩ | ⟨r, -, -, hhead, -⟩
      · exact ⟨hes, ho'⟩
      · -- a head below the limit would have met the condition
        exact absurd (r.header_le_length_head) (by omega)

/-- **Specification of the event loop**: it consumes exactly a guarded run of well-formed records that
ends where the loop stops. -/
theorem parseEventsLoop_ok_iff {c : Cursor} (h : c.Tight) {toReg : RegisterIndexFn}
    {reg : RegisterMap} (himp : Implements toReg reg) (hterm : reg logTerminator = none)
    {sizes : List (Nat × Nat)} {fuel index o o' : Nat} {acc es : List EventLogEntry}
    (ho : o ≤ c.data.length) (hfuel : c.data.length < o + fuel) :
    parseEventsLoop c sizes toReg fuel index acc o = .ok es o' ↔
      ∃ rs : List Event2Record, (∀ r ∈ rs, r.WellFormed reg sizes) ∧
        HasAt c.data o (rs.flatMap Event2Record.encode) ∧ Guarded c.limit o rs ∧
        o' = o + (rs.flatMap Event2Record.encode).length ∧ Stops c o' ∧
        es = acc ++ entriesFrom reg index rs := by
  -- induction on the fuel, which the bytes left never exhaust
  induction fuel generalizing index acc o o' es with
  | zero => omega
  | succ fuel ih =>
    -- a record leaves enough fuel for the bytes behind it
    have hnext : ∀ {r : Event2Record}, HasAt c.data o r.encode →
        o + r.encode.length ≤ c.data.length ∧
          c.data.length < o + r.encode.length + fuel := by
      intro r hat
      have hlen := r.length_encode
      exact ⟨hat.end_le_of_le ho, by omega⟩
    rw [parseEventsLoop_succ_ok_iff h himp hterm]
    constructor
    · rintro (⟨hstop, rfl, rfl⟩ | ⟨r, hr, hat, hhead, hrun⟩)
      · exact ⟨[], by simp, by simp, trivial, rfl, hstop, by simp [entriesFrom]⟩
      · obtain ⟨rs, hrs, hrsAt, hguard, rfl, hstop, rfl⟩ :=
          (ih (hnext hat).1 (hnext hat).2).mp hrun
        refine ⟨r :: rs, List.forall_mem_cons.mpr ⟨hr, hrs⟩, ?_, ⟨hhead, hguard⟩, ?_, hstop,
          by simp [entriesFrom]⟩
        · rw [List.flatMap_cons, hasAt_append]
          exact ⟨hat, hrsAt⟩
        · rw [length_flatMap_encode_cons, Nat.add_assoc]
    · rintro ⟨rs, hrs, hat, hguard, rfl, hstop, rfl⟩
      cases rs with
      | nil => exact Or.inl ⟨hstop, (List.append_nil acc).symm, rfl⟩
      | cons r rs =>
        obtain ⟨hr, hrs⟩ := List.forall_mem_cons.mp hrs
        rw [List.flatMap_cons, hasAt_append] at hat
        refine Or.inr ⟨r, hr, hat.1, hguard.1, (ih (hnext hat.1).1 (hnext hat.1).2).mpr
          ⟨rs, hrs, hat.2, hguard.2, ?_, hstop, by simp [entriesFrom]⟩⟩
        rw [length_flatMap_encode_cons, Nat.add_assoc]

/-! ## The tail of the table -/

/-- **What may follow the last event**: an optional terminator, then copies of one fill byte. -/
structure TableTail where
  terminated : Bool
  pad : UInt8
  count : Nat
  pad_mem : pad ∈ paddingBytes

namespace TableTail

/-- The bytes of the tail. -/
def encode (t : TableTail) : Bytes :=
  (if t.terminated then leBytes 4 logTerminator else []) ++ List.replicate t.count t.pad

/-- The tail of an exactly sized log. -/
def nothing : TableTail := ⟨false, 0x00, 0, by decide⟩

/-- The tail of an exactly sized log that ends in a terminator. -/
def terminator : TableTail := ⟨true, 0x00, 0, by decide⟩

/-- Nothing is written as no bytes, -/
@[simp] theorem encode_nothing : nothing.encode = [] := rfl

/-- and the terminator as its register index. -/
@[simp] theorem encode_terminator : terminator.encode = leBytes 4 logTerminator := by decide

end TableTail

/-- A byte string all of whose bytes are one padding byte, in the way the source counts them. -/
theorem allPadding_iff {bs : Bytes} :
    (bs = [] ∨ paddingBytes.any (fun pad => bs.count pad == bs.length) = true) ↔
      ∃ pad ∈ paddingBytes, ∃ n, bs = List.replicate n pad := by
  rw [List.any_eq_true]
  constructor
  · rintro (rfl | ⟨pad, hpad, hcount⟩)
    · exact ⟨0x00, by decide, 0, rfl⟩
    · rw [beq_iff_eq, List.count_eq_length] at hcount
      exact ⟨pad, hpad, bs.length, List.eq_replicate_iff.mpr ⟨rfl, fun b hb => (hcount b hb).symm⟩⟩
  · rintro ⟨pad, hpad, n, rfl⟩
    exact Or.inr ⟨pad, hpad, by simp⟩

/-- A tail is what remains before its terminator is skipped, and after. -/
theorem exists_tableTail_iff {bs : Bytes} :
    (∃ t : TableTail, bs = t.encode) ↔
      ∃ pad ∈ paddingBytes, ∃ n, skipTerminator bs = List.replicate n pad := by
  unfold skipTerminator
  constructor
  · rintro ⟨⟨terminated, pad, n, hmem⟩, rfl⟩
    cases terminated with
    | true => exact ⟨pad, hmem, n, by simp [TableTail.encode]⟩
    | false =>
      -- a run of 0xFF is itself taken for a terminator, and then loses four bytes
      simp only [TableTail.encode, Bool.false_eq_true, if_false, List.nil_append,
        List.drop_replicate]
      split
      · exact ⟨pad, hmem, n - 4, rfl⟩
      · exact ⟨pad, hmem, n, rfl⟩
  · rintro ⟨pad, hmem, n, hn⟩
    split at hn
    · rename_i hterm
      refine ⟨⟨true, pad, n, hmem⟩, ?_⟩
      rw [TableTail.encode, if_pos rfl, ← hn, ← hterm, List.take_append_drop]
    · exact ⟨⟨false, pad, n, hmem⟩, by simpa [TableTail.encode] using hn⟩

/-- **Specification of `_require_only_padding`.** -/
theorem requireOnlyPadding_ok_iff {c : Cursor} {o o' : Nat} {u : Unit} :
    requireOnlyPadding c o = .ok u o' ↔ o' = o ∧ ∃ t : TableTail, c.data.drop o = t.encode := by
  rw [exists_tableTail_iff, ← allPadding_iff]
  unfold requireOnlyPadding
  simp only [run_bind_ok, Cursor.tail_ok_iff]
  constructor
  · rintro ⟨_, _, ⟨rfl, rfl⟩, hrun⟩
    split at hrun
    · rename_i hpad
      obtain ⟨-, rfl⟩ := run_pure_ok.mp hrun
      exact ⟨rfl, hpad⟩
    · simp only [run_bind_ok] at hrun
      obtain ⟨_, _, -, hthrow⟩ := hrun
      exact absurd hthrow run_throw_ne_ok
  · rintro ⟨rfl, hpad⟩
    refine ⟨_, o', ⟨rfl, rfl⟩, ?_⟩
    rw [if_pos hpad]
    exact run_pure_ok.mpr ⟨rfl, rfl⟩

/-! ## The whole log -/

/-- **Specification of `parse_events` on its cursor**: a well-formed log, read under the cursor's
limit, and a tail. -/
theorem readEvents_ok_iff {c : Cursor} (h : c.Tight) {toReg : RegisterIndexFn} {reg : RegisterMap}
    (himp : Implements toReg reg) (hterm : reg logTerminator = none) {sizes : List (Nat × Nat)}
    {es : List EventLogEntry} :
    (∃ o', readEvents c toReg 0 = .ok (sizes, es) o') ↔
      ∃ log : TcgLog reg, ∃ t : TableTail, c.data = log.encode ++ t.encode ∧ 28 ≤ c.limit ∧
        Guarded c.limit log.spec.encode.length log.events ∧ Stops c log.encode.length ∧
        sizes = log.digestSizes ∧ es = log.entries := by
  unfold readEvents
  simp only [run_bind_ok, Prod.exists, parseSpecIdEvent_ok_iff h himp, requireOnlyPadding_ok_iff,
    run_pure_ok, Prod.mk.injEq]
  constructor
  · rintro ⟨_, _, _, _, ⟨spec, hspec, hspecAt, hlim, rfl, rfl, rfl⟩, _, _, hloop, _, _,
      ⟨rfl, t, ht⟩, ⟨rfl, rfl⟩, rfl⟩
    -- the records follow the first one, and the tail follows them
    have hend := hspecAt.end_le_of_le (Nat.zero_le _)
    obtain ⟨rs, hrs, hrsAt, hguard, rfl, hstop, rfl⟩ :=
      (parseEventsLoop_ok_iff h himp hterm hend (by omega)).mp hloop
    rw [Nat.zero_add] at hrsAt hguard hstop ht
    refine ⟨⟨spec, rs, hspec, hrs⟩, t, ?_, by omega, hguard, ?_, rfl, rfl⟩
    · rw [← ht, TcgLog.encode]
      have hwhole : HasAt c.data 0 (spec.encode ++ rs.flatMap Event2Record.encode) := by
        rw [hasAt_append, Nat.zero_add]
        exact ⟨hspecAt, hrsAt⟩
      have hdrop := hwhole.drop_eq
      rwa [List.drop_zero, Nat.zero_add, List.length_append] at hdrop
    · rwa [TcgLog.encode, List.length_append]
  · rintro ⟨log, t, hdata, hlim, hguard, hstop, rfl, rfl⟩
    have hwhole : HasAt c.data 0 (log.spec.encode ++ log.events.flatMap Event2Record.encode) := by
      rw [hdata]
      exact List.prefix_append _ _
    obtain ⟨hspecAt, hrsAt⟩ := hasAt_append.mp hwhole
    have hend := hspecAt.end_le_of_le (Nat.zero_le _)
    rw [Nat.zero_add] at hrsAt hend
    refine ⟨_, _, _, _, ⟨log.spec, log.spec_wf, hspecAt, by omega, rfl, rfl, rfl⟩, log.entries,
      log.encode.length, ?_, (), _, ⟨rfl, t, ?_⟩, ⟨rfl, rfl⟩, rfl⟩
    · rw [Nat.zero_add]
      refine (parseEventsLoop_ok_iff h himp hterm hend (by omega)).mpr
        ⟨log.events, log.events_wf, hrsAt, hguard, ?_, hstop, rfl⟩
      rw [TcgLog.encode, List.length_append]
    · rw [hdata, List.drop_left]

/-- The cursor of `parse_events` is tight. -/
theorem eventsCursor_tight (data : Bytes) (what : String) (toleratePadding : Bool) :
    (eventsCursor data what toleratePadding).Tight := by
  cases toleratePadding with
  | false => exact Cursor.ofData_tight data what
  | true =>
    have hcur : eventsCursor data what true
        = ⟨data, what, (paddingStart data).1, (paddingStart data).2⟩ := rfl
    rw [hcur]
    unfold paddingStart
    cases hfind : paddingBytes.find? fun pad => (rstrip pad data).length != data.length with
    | none => exact Cursor.ofData_tight data what
    | some pad =>
      -- stripping took nothing but the fill byte
      refine ⟨length_rstrip_le pad data, ?_, ?_⟩
      · intro f hf i hi hlt
        obtain rfl : pad = f := by simpa using hf
        exact getElem?_of_rstrip_le hi hlt
      · intro hnone
        simp at hnone

/-- **Specification of `parse_events`.** It returns on a buffer iff the buffer is a well-formed log
and a tail, with every record's head below the fill boundary and the loop stopping after the last
record; then it returns the log's digest sizes and events. -/
theorem parseEvents_ok_iff {data : Bytes} {what : String} {toReg : RegisterIndexFn}
    {reg : RegisterMap} (himp : Implements toReg reg) (hterm : reg logTerminator = none)
    {toleratePadding : Bool} {sizes : List (Nat × Nat)} {es : List EventLogEntry} :
    parseEvents data what toReg toleratePadding = .ok (sizes, es) ↔
      ∃ log : TcgLog reg, ∃ t : TableTail, data = log.encode ++ t.encode ∧
        28 ≤ (eventsCursor data what toleratePadding).limit ∧
        Guarded (eventsCursor data what toleratePadding).limit log.spec.encode.length log.events ∧
        Stops (eventsCursor data what toleratePadding) log.encode.length ∧
        sizes = log.digestSizes ∧ es = log.entries := by
  have htight := eventsCursor_tight data what toleratePadding
  unfold parseEvents
  simp only [bind_eq_ok, refuseIf_eq_ok, runFrom_eq_ok, readEvents_ok_iff htight himp hterm]
  constructor
  · rintro ⟨_, -, hrun⟩
    exact hrun
  · rintro ⟨log, t, hdata, hrest⟩
    refine ⟨(), ?_, log, t, hdata, hrest⟩
    -- a first record alone is longer than the shortest buffer accepted
    have hspec := log.spec_wf.length_encode
    have hlen := congrArg List.length hdata
    rw [List.length_append, TcgLog.encode, List.length_append] at hlen
    rw [specIdHeaderSize]
    omega

/-! ## Refusals are `ValueError`s -/

/-- The first event raises only `ValueError`, -/
theorem parseSpecIdEvent_raises {c : Cursor} (h : c.Tight) {toReg : RegisterIndexFn}
    {reg : RegisterMap} (himp : Implements toReg reg) (index : Nat) :
    RaisesOnlyValueError (fun _ => True) (parseSpecIdEvent c index toReg) := by
  have hlift : ∀ d, RaisesOnlyValueError (fun _ => True)
      (liftPy (parseDigestSizes d) : CursorM (List (Nat × Nat))) := by
    intro d o e o' _ herr
    cases hparse : parseDigestSizes d with
    | ok sizes =>
      rw [hparse] at herr
      exact absurd herr run_pure_ne_error
    | error e' =>
      rw [hparse] at herr
      obtain ⟨rfl, -⟩ := run_throw_error.mp herr
      exact parseDigestSizes_raises hparse
  unfold parseSpecIdEvent
  exact (h.u32_raises _ _).andThen fun _ => (h.u32_raises _ _).andThen fun _ =>
    (Cursor.take_raises _ _ _ _ _).andThen fun _ => (h.u32_raises _ _).andThen fun _ =>
    (Cursor.take_raises _ _ _ _ _).andThen fun _ => (himp.raises _).andThen fun _ =>
    (hlift _).andThen fun _ => raisesOnlyValueError_pure _

/-- so do the digests of an event, -/
theorem digestsLoop_raises {c : Cursor} (h : c.Tight) (sizes : List (Nat × Nat)) (n : Nat)
    (acc : List (Nat × Bytes)) :
    RaisesOnlyValueError (fun _ => True) (digestsLoop c sizes n acc) := by
  induction n generalizing acc with
  | zero => exact raisesOnlyValueError_pure _
  | succ n ih =>
    rw [digestsLoop]
    refine raisesOnlyValueError_get.andThen fun _ => (h.u16_raises _ _).andThen fun id => ?_
    cases digestSizeOf sizes id with
    | none => exact raisesOnlyValueError_throw _
    | some dsz =>
      exact (raisesOnlyValueError_refuseIf _ _).andThen fun _ =>
        (Cursor.take_raises _ _ _ _ _).andThen fun _ => ih _

/-- the event, -/
theorem parseEvent2_raises {c : Cursor} (h : c.Tight) {toReg : RegisterIndexFn} {reg : RegisterMap}
    (himp : Implements toReg reg) (index : Nat) (sizes : List (Nat × Nat)) :
    RaisesOnlyValueError (fun _ => True) (parseEvent2 c index sizes toReg) := by
  unfold parseEvent2
  exact (h.u32_raises _ _).andThen fun _ => (h.u32_raises _ _).andThen fun _ =>
    (h.u32_raises _ _).andThen fun _ => (Cursor.boundedCount_raises _ _ _ _ _).andThen fun _ =>
    (digestsLoop_raises h _ _ _).andThen fun _ => (h.u32_raises _ _).andThen fun _ =>
    (Cursor.take_raises _ _ _ _ _).andThen fun _ => (himp.raises _).andThen fun _ =>
    raisesOnlyValueError_get.andThen fun _ =>
    (raisesOnlyValueError_refuseIf _ _).andThen fun _ => raisesOnlyValueError_pure _

/-- Enough fuel is never used up: each round consumes a whole record. -/
theorem parseEventsLoop_raises {c : Cursor} (h : c.Tight) {toReg : RegisterIndexFn}
    {reg : RegisterMap} (himp : Implements toReg reg) (sizes : List (Nat × Nat)) (fuel index : Nat)
    (acc : List EventLogEntry) :
    RaisesOnlyValueError (fun o => o ≤ c.data.length ∧ c.data.length < o + fuel)
      (parseEventsLoop c sizes toReg fuel index acc) := by
  induction fuel generalizing index acc with
  | zero => rintro o e o' ⟨ho, hfuel⟩ -; omega
  | succ fuel ih =>
    intro o e o' ⟨ho, hfuel⟩ herr
    rw [parseEventsLoop] at herr
    rcases run_bind_error.mp herr with hget | ⟨v, o₁, hget, hloop⟩
    · cases hget
    · obtain ⟨rfl, rfl⟩ := run_get_ok.mp hget
      split at hloop
      · rcases run_bind_error.mp hloop with hpeek | ⟨raw, o₂, hpeek, hstep⟩
        · exact h.peekU32_raises _ (fun _ => True) _ _ _ trivial hpeek
        · obtain ⟨-, -, rfl⟩ := h.peekU32_ok_iff.mp hpeek
          split at hstep
          · exact absurd hstep run_pure_ne_error
          · rcases run_bind_error.mp hstep with hevent | ⟨ev, o₃, hevent, hrest⟩
            · exact parseEvent2_raises h himp _ _ _ _ _ trivial hevent
            -- the rest of the loop starts behind a whole record
            · obtain ⟨r, -, hat, -, rfl, -⟩ := (parseEvent2_ok_iff h himp).mp hevent
              have hlen := r.length_encode
              have hend := hat.end_le_of_le ho
              exact ih _ _ _ e o' ⟨hend, by omega⟩ hrest
      · exact absurd hloop run_pure_ne_error

/-- and what follows the events. -/
theorem requireOnlyPadding_raises (c : Cursor) :
    RaisesOnlyValueError (fun _ => True) (requireOnlyPadding c) := by
  intro o e o' _ herr
  unfold requireOnlyPadding at herr
  rcases run_bind_error.mp herr with htail | ⟨bs, o₁, -, hcheck⟩
  · cases htail
  · split at hcheck
    · exact absurd hcheck run_pure_ne_error
    · exact (raisesOnlyValueError_get (I := fun _ => True)).andThen
        (fun _ => raisesOnlyValueError_throw _) o₁ e o' trivial hcheck

/-- **`parse_events` refuses with `ValueError` only**: no `struct.error`, no `IndexError`, and the
loop always ends. -/
theorem parseEvents_raises {data : Bytes} {what : String} {toReg : RegisterIndexFn}
    {reg : RegisterMap} (himp : Implements toReg reg) {toleratePadding : Bool} {e : PyError}
    (herr : parseEvents data what toReg toleratePadding = .error e) : e.IsValueError := by
  have h := eventsCursor_tight data what toleratePadding
  unfold parseEvents at herr
  rcases bind_eq_error.mp herr with hshort | ⟨_, -, hrun⟩
  · obtain ⟨-, rfl⟩ := refuseIf_eq_error.mp hshort
    trivial
  · obtain ⟨s', hrun⟩ := runFrom_eq_error.mp hrun
    unfold readEvents at hrun
    rcases run_bind_error.mp hrun with hspec | ⟨⟨entry, sizes⟩, o₁, hspec, hrest⟩
    · exact parseSpecIdEvent_raises h himp 0 0 e s' trivial hspec
    · obtain ⟨spec, -, hat, -, rfl, -, -⟩ := (parseSpecIdEvent_ok_iff h himp).mp hspec
      have hend := hat.end_le_of_le (Nat.zero_le _)
      rcases run_bind_error.mp hrest with hloop | ⟨es, o₂, -, hpad⟩
      · exact parseEventsLoop_raises h himp _ _ _ _ _ e s' ⟨hend, by omega⟩ hloop
      · rcases run_bind_error.mp hpad with hpad | ⟨_, o₃, -, hpure⟩
        · exact requireOnlyPadding_raises _ o₂ e s' trivial hpad
        · exact absurd hpure run_pure_ne_error

end CvmMeasure.Tcg
