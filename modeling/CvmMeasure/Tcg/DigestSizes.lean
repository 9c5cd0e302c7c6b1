import CvmMeasure.Tcg.Grammar

/-! # `parse_digest_sizes` accepts exactly the SpecIdEvent grammar

One specification lemma for each function, from the algorithm loop up:
`parseDigestSizes_ok_iff` says that the parser returns a table iff its input is the encoding of a
well-formed payload with that table, and `parseDigestSizes_grammar` spells the payload out byte by
byte. -/

namespace CvmMeasure.Tcg

open Binary Python

/-- One round of the algorithm loop reads one valid declaration of a new algorithm. -/
theorem digestSizesLoop_succ_ok_iff {c : Cursor} (h : c.Tight) {n o o' : Nat}
    {acc sizes : List (Nat × Nat)} :
    digestSizesLoop c (n + 1) acc o = .ok sizes o' ↔
      ∃ a, ValidAlgo a ∧ a.1 ∉ acc.map Prod.fst ∧ HasAt c.data o (encodeAlgo a) ∧
        digestSizesLoop c n (acc ++ [a]) (o + 4) = .ok sizes o' := by
  rw [digestSizesLoop]
  simp only [run_bind_ok, h.u16_ok_iff, run_refuseIf_ok, encodeAlgo, hasAt_append, leBytes_length]
  constructor
  -- the refusals passed are the conditions of `ValidAlgo`
  · rintro ⟨id, _, ⟨hid, hidAt, rfl⟩, size, _, ⟨-, hsizeAt, rfl⟩, _, _, ⟨hnew, rfl⟩, _, _,
      ⟨hknown, rfl⟩, _, _, ⟨husable, rfl⟩, hrest⟩
    refine ⟨(id, size), ⟨hid, by omega, by omega, fun s hs => ?_⟩, hnew, ⟨hidAt, hsizeAt⟩, hrest⟩
    by_contra hne
    exact hknown ⟨by rw [hs]; rfl, by rw [hs]; simpa using hne⟩
  · rintro ⟨⟨id, size⟩, hvalid, hnew, ⟨hidAt, hsizeAt⟩, hrest⟩
    have hmax : maxDigestSize < 256 ^ 2 := by decide
    refine ⟨id, _, ⟨hvalid.id_lt, hidAt, rfl⟩, size, _,
      ⟨hvalid.size_le.trans_lt hmax, hsizeAt, rfl⟩, (), _, ⟨hnew, rfl⟩, (), _, ⟨?_, rfl⟩, (), _,
      ⟨not_not.mpr ⟨hvalid.size_pos, hvalid.size_le⟩, rfl⟩, hrest⟩
    rintro ⟨hsome, hne⟩
    obtain ⟨s, hs⟩ := Option.isSome_iff_exists.mp hsome
    exact hne (by rw [hs]; exact congrArg some (hvalid.known s hs))

/-- **Specification of the algorithm loop**: it consumes `n` declarations and appends them. -/
theorem digestSizesLoop_ok_iff {c : Cursor} (h : c.Tight) {n o o' : Nat}
    {acc sizes : List (Nat × Nat)} (hacc : (acc.map Prod.fst).Nodup) :
    digestSizesLoop c n acc o = .ok sizes o' ↔
      ∃ algos, sizes = acc ++ algos ∧ algos.length = n ∧ (∀ a ∈ algos, ValidAlgo a) ∧
        ((acc ++ algos).map Prod.fst).Nodup ∧ HasAt c.data o (algos.flatMap encodeAlgo) ∧
        o' = o + 4 * n := by
  -- induction on the number of declarations left; the accumulator keeps its ids distinct
  induction n generalizing acc o o' sizes with
  | zero =>
    rw [digestSizesLoop, run_pure_ok]
    constructor
    · rintro ⟨rfl, rfl⟩
      exact ⟨[], by simp, rfl, by simp, by simpa using hacc, by simp, rfl⟩
    · rintro ⟨algos, rfl, hlen, -, -, -, rfl⟩
      rw [List.length_eq_zero_iff] at hlen
      subst hlen
      exact ⟨by simp, rfl⟩
  | succ n ih =>
    rw [digestSizesLoop_succ_ok_iff h]
    constructor
    · rintro ⟨a, ha, hnew, haAt, hrest⟩
      obtain ⟨algos, rfl, hlen, hvalid, hnd, hat, rfl⟩ :=
        (ih (nodup_ids_concat.mpr ⟨hnew, hacc⟩)).mp hrest
      rw [List.append_assoc, List.singleton_append] at hnd ⊢
      refine ⟨a :: algos, rfl, by rw [List.length_cons, hlen],
        List.forall_mem_cons.mpr ⟨ha, hvalid⟩, hnd, ?_, by omega⟩
      rw [List.flatMap_cons, hasAt_append, length_encodeAlgo]
      exact ⟨haAt, hat⟩
    · rintro ⟨algos, rfl, hlen, hvalid, hnd, hat, rfl⟩
      obtain _ | ⟨a, algos⟩ := algos
      · cases hlen
      rw [List.flatMap_cons, hasAt_append, length_encodeAlgo] at hat
      rw [List.append_cons] at hnd ⊢
      obtain ⟨ha, hvalid⟩ := List.forall_mem_cons.mp hvalid
      have hacc' := nodup_ids_of_append hnd
      exact ⟨a, ha, (nodup_ids_concat.mp hacc').1, hat.1, (ih hacc').mpr
        ⟨algos, rfl, Nat.succ.inj hlen, hvalid, hnd, hat.2, by omega⟩⟩

/-- A buffer is what stands at its start and reaches its end. -/
theorem eq_of_hasAt_zero {d bs : Bytes} (h : HasAt d 0 bs) (hlen : d.length ≤ bs.length) : d = bs := by
  rw [HasAt, List.drop_zero] at h
  exact (h.eq_of_length_le hlen).symm

/-- **Specification of the payload fields** behind the signature. -/
theorem readDigestSizes_ok_iff {d : Bytes} {what : String} {sizes : List (Nat × Nat)} {o' : Nat} :
    readDigestSizes (Cursor.ofData d what) 0 = .ok sizes o' ↔
      o' = d.length ∧ ∃ start vendorInfo, start.length = specIdAlgoCountOffset ∧ sizes ≠ [] ∧
        (∀ a ∈ sizes, ValidAlgo a) ∧ (sizes.map Prod.fst).Nodup ∧ vendorInfo.length < 256 ^ 1 ∧
        d = start ++ (leBytes 4 sizes.length ++ (sizes.flatMap encodeAlgo ++
          (leBytes 1 vendorInfo.length ++ vendorInfo))) := by
  have h := Cursor.ofData_tight d what
  have hdata : (Cursor.ofData d what).data = d := rfl
  have hlimit : (Cursor.ofData d what).limit = d.length := rfl
  have hnil : (([] : List (Nat × Nat)).map Prod.fst).Nodup := List.nodup_nil
  unfold readDigestSizes
  simp only [run_bind_ok, h.takeLenient_ok_iff, h.u32_ok_iff, Cursor.boundedCount_ok_iff,
    run_refuseIf_ok, digestSizesLoop_ok_iff h hnil, h.u8_ok_iff, run_get_ok,
    run_pure_ok, hdata, List.nil_append, Cursor.remaining, hlimit, not_not]
  constructor
  · rintro ⟨start, _, ⟨hstart, hstartAt, rfl⟩, count, _, ⟨hcount, hcountAt, rfl⟩, _, _,
      ⟨rfl, rfl, -⟩, _, _, ⟨hne, rfl⟩, algos, _, ⟨_, rfl, hlen, hvalid, hnd, hat, rfl⟩, v, _,
      ⟨hv, hvAt, rfl⟩, vendor, _, ⟨hvlen, hvendorAt, rfl⟩, _, _, ⟨rfl, rfl⟩, _, _, ⟨hend, rfl⟩,
      rfl, rfl⟩
    -- the fields stand one after the other and reach the end of the payload
    have hwhole : HasAt d 0 (start ++ (leBytes 4 algos.length ++ (algos.flatMap encodeAlgo ++
        (leBytes 1 vendor.length ++ vendor)))) := by
      rw [hasAt_append, hasAt_append, hasAt_append, hasAt_append]
      simp only [leBytes_length, length_flatMap_encodeAlgo, hstart, hlen, hvlen]
      exact ⟨hstartAt, hcountAt, hat, hvAt, hvendorAt⟩
    have hle := hwhole.end_le_of_le (Nat.zero_le _)
    have heq := eq_of_hasAt_zero hwhole (by
      simp only [List.length_append, leBytes_length, length_flatMap_encodeAlgo] at hle ⊢
      omega)
    refine ⟨?_, start, vendor, hstart, ?_, hvalid, hnd, by omega, heq⟩
    · rw [heq]
      simp only [List.length_append, leBytes_length, length_flatMap_encodeAlgo]
      omega
    · rintro rfl
      exact hne hlen.symm
  · rintro ⟨rfl, start, vendor, hstart, hne, hvalid, hnd, hv, heq⟩
    have hat : HasAt d 0 (start ++ (leBytes 4 sizes.length ++ (sizes.flatMap encodeAlgo ++
        (leBytes 1 vendor.length ++ vendor)))) := by
      rw [← heq]
      exact List.prefix_refl _
    have hlen := congrArg List.length heq
    simp only [List.length_append, leBytes_length, length_flatMap_encodeAlgo, hstart] at hlen
    rw [hasAt_append, hasAt_append, hasAt_append, hasAt_append] at hat
    simp only [leBytes_length, length_flatMap_encodeAlgo, hstart] at hat
    obtain ⟨hstartAt, hcountAt, halgosAt, hvAt, hvendorAt⟩ := hat
    -- two-byte ids are too few to overflow the count
    have hcount : sizes.length < 256 ^ 4 := by
      have := length_le_of_ids_nodup (fun a ha => (hvalid a ha).id_lt) hnd
      omega
    refine ⟨start, _, ⟨hstart, hstartAt, rfl⟩, sizes.length, _, ⟨hcount, hcountAt, rfl⟩, _, _,
      ⟨rfl, rfl, ?_⟩, (), _, ⟨by simpa using hne, rfl⟩, _, _,
      ⟨sizes, rfl, rfl, hvalid, hnd, halgosAt, rfl⟩, _, _, ⟨hv, hvAt, rfl⟩, vendor, _,
      ⟨rfl, hvendorAt, rfl⟩, _, _, ⟨rfl, rfl⟩, (), _, ⟨?_, rfl⟩, rfl, ?_⟩
    · rw [Cursor.inBuffer, hdata]
      omega
    · omega
    · omega

/-- **`parse_digest_sizes` accepts exactly the SpecIdEvent grammar.** -/
theorem parseDigestSizes_ok_iff {d : Bytes} {sizes : List (Nat × Nat)} :
    parseDigestSizes d = .ok sizes ↔
      ∃ p : SpecIdPayload, p.WellFormed ∧ d = p.encode ∧ p.algos = sizes := by
  unfold parseDigestSizes
  simp only [bind_eq_ok, refuseIf_eq_ok, runFrom_eq_ok, not_not, readDigestSizes_ok_iff]
  constructor
  · rintro ⟨_, hsig, _, rfl, start, vendor, hstart, hne, hvalid, hnd, hv, heq⟩
    -- the first 24 bytes are the signature and the platform fields
    have hsplit : start = specIdSignature ++ start.drop specIdSignature.length := by
      have htake : start.take specIdSignature.length = specIdSignature := by
        rw [heq, List.take_append_of_le_length (by rw [hstart]; decide)] at hsig
        exact hsig
      rw [← htake, List.length_take, Nat.min_eq_left (by rw [hstart]; decide),
        List.take_append_drop]
    refine ⟨⟨start.drop specIdSignature.length, sizes, vendor⟩,
      ⟨?_, hne, hvalid, hnd, hv⟩, ?_, rfl⟩
    · rw [List.length_drop, hstart]
      decide
    · rw [heq, SpecIdPayload.encode]
      conv_lhs => rw [hsplit, List.append_assoc]
  · rintro ⟨p, hp, rfl, rfl⟩
    refine ⟨(), ?_, _, rfl, specIdSignature ++ p.platform, p.vendorInfo, ?_, hp.algos_ne_nil,
      hp.algos_valid, hp.ids_nodup, hp.vendorInfo_lt, ?_⟩
    · rw [SpecIdPayload.encode, List.take_left]
    · rw [List.length_append, hp.platform_length]
      decide
    · rw [SpecIdPayload.encode, List.append_assoc]

/-! ## Refusals are `ValueError`s -/

/-- The loop over the algorithms raises only `ValueError`, -/
theorem digestSizesLoop_raises {c : Cursor} (h : c.Tight) (n : Nat) (acc : List (Nat × Nat)) :
    RaisesOnlyValueError (fun _ => True) (digestSizesLoop c n acc) := by
  induction n generalizing acc with
  | zero => exact raisesOnlyValueError_pure _
  | succ n ih =>
    rw [digestSizesLoop]
    exact (h.u16_raises _ _).andThen fun _ => (h.u16_raises _ _).andThen fun _ =>
      (raisesOnlyValueError_refuseIf _ _).andThen fun _ =>
      (raisesOnlyValueError_refuseIf _ _).andThen fun _ =>
      (raisesOnlyValueError_refuseIf _ _).andThen fun _ => ih _

/-- and so does reading their number first. -/
theorem readDigestSizes_raises {c : Cursor} (h : c.Tight) :
    RaisesOnlyValueError (fun _ => True) (readDigestSizes c) := by
  unfold readDigestSizes
  exact (Cursor.take_raises _ _ _ _ _).andThen fun _ => (h.u32_raises _ _).andThen fun _ =>
    (Cursor.boundedCount_raises _ _ _ _ _).andThen fun _ =>
    (raisesOnlyValueError_refuseIf _ _).andThen fun _ =>
    (digestSizesLoop_raises h _ _).andThen fun _ => (h.u8_raises _ _).andThen fun _ =>
    (Cursor.take_raises _ _ _ _ _).andThen fun _ => raisesOnlyValueError_get.andThen fun _ =>
    (raisesOnlyValueError_refuseIf _ _).andThen fun _ => raisesOnlyValueError_pure _

/-- `parse_digest_sizes` refuses with `ValueError` only. -/
theorem parseDigestSizes_raises {d : Bytes} {e : PyError} (h : parseDigestSizes d = .error e) :
    e.IsValueError := by
  unfold parseDigestSizes at h
  rcases bind_eq_error.mp h with h | ⟨_, -, h⟩
  · obtain ⟨-, rfl⟩ := refuseIf_eq_error.mp h
    trivial
  · obtain ⟨s', h⟩ := runFrom_eq_error.mp h
    exact readDigestSizes_raises (Cursor.ofData_tight _ _) 0 e s' trivial h

/-! ## The grammar, byte by byte -/

/-- **The bytes of a SpecIdEvent with the given table**: the signature, eight further bytes, the number
of algorithms, an id and a size for each, and the vendor's bytes behind their length; the ids are
distinct, and the sizes usable and, for a built-in algorithm, the true one. -/
def IsSpecIdEvent (d : Bytes) (sizes : List (Nat × Nat)) : Prop :=
  ∃ platform vendorInfo : Bytes, platform.length = 8 ∧ vendorInfo.length ≤ 255 ∧ 1 ≤ sizes.length ∧
    d = specIdSignature ++ platform ++ leBytes 4 sizes.length
      ++ sizes.flatMap (fun a => leBytes 2 a.1 ++ leBytes 2 a.2)
      ++ leBytes 1 vendorInfo.length ++ vendorInfo ∧
    (sizes.map Prod.fst).Nodup ∧
    ∀ a ∈ sizes, a.1 < 2 ^ 16 ∧ 1 ≤ a.2 ∧ a.2 ≤ 64 ∧
      ∀ size, algoDigestSizes.lookup a.1 = some size → a.2 = size

/-- They are the encodings of the well-formed payloads. -/
theorem isSpecIdEvent_iff {d : Bytes} {sizes : List (Nat × Nat)} :
    IsSpecIdEvent d sizes ↔ ∃ p : SpecIdPayload, p.WellFormed ∧ d = p.encode ∧ p.algos = sizes := by
  constructor
  · rintro ⟨platform, vendorInfo, hplatform, hvendor, hcount, rfl, hnodup, hvalid⟩
    refine ⟨⟨platform, sizes, vendorInfo⟩, ⟨hplatform, ?_, ?_, hnodup, ?_⟩, ?_, rfl⟩
    · exact List.ne_nil_of_length_pos hcount
    · intro a ha
      obtain ⟨hid, hpos, hle, hknown⟩ := hvalid a ha
      exact ⟨hid, hpos, hle, hknown⟩
    · show vendorInfo.length < 256
      omega
    · simp only [SpecIdPayload.encode, List.append_assoc]
      rfl
  · rintro ⟨p, hp, rfl, rfl⟩
    refine ⟨p.platform, p.vendorInfo, hp.platform_length, ?_, ?_, ?_, hp.ids_nodup, ?_⟩
    · exact Nat.le_of_lt_succ hp.vendorInfo_lt
    · exact List.length_pos_iff.mpr hp.algos_ne_nil
    · simp only [SpecIdPayload.encode, List.append_assoc]
      rfl
    · intro a ha
      have hvalid := hp.algos_valid a ha
      exact ⟨hvalid.id_lt, hvalid.size_pos, hvalid.size_le, hvalid.known⟩

/-- **`parse_digest_sizes` returns a table exactly on the bytes of a SpecIdEvent with that table**, and
raises `ValueError` on all others. -/
theorem parseDigestSizes_grammar (d : Bytes) :
    (∀ sizes, parseDigestSizes d = .ok sizes ↔ IsSpecIdEvent d sizes) ∧
    ((∀ sizes, ¬ IsSpecIdEvent d sizes) →
      ∃ message, parseDigestSizes d = .error (.valueError message)) := by
  have hiff : ∀ sizes, parseDigestSizes d = .ok sizes ↔ IsSpecIdEvent d sizes := by
    intro sizes
    rw [parseDigestSizes_ok_iff, isSpecIdEvent_iff]
  refine ⟨hiff, fun hnone => ?_⟩
  cases hparse : parseDigestSizes d with
  | ok sizes => exact absurd ((hiff sizes).mp hparse) (hnone sizes)
  | error e =>
    obtain ⟨message, rfl⟩ := (parseDigestSizes_raises hparse).exists_message
    exact ⟨message, rfl⟩

end CvmMeasure.Tcg
