import CvmMeasure.Sequence.Interleaving
import CvmMeasure.Tdx.BaselineCoverage
import CvmMeasure.Tdx.Rtmr0Agreement

/-! # The baselines RTMR[0] accepts

`_compute_rtmr0` splits acceptance over three checks of the event labels, takes the digests of five
events from a dictionary and those of the others by position. Together:

* **`SupportedEvents`**: the five labelled events in any order, interleaved with the others in theirs;
* **`checkRtmr0Events_ok_iff_supported`**: the checks let exactly these pass;
* **`computeRtmr0_interleaving`**: exactly these give a register, and it does not depend on how they are
  interleaved. -/

namespace CvmMeasure.Tdx

open Binary Python Sequence

/-- The string decodes to a SHA-384 digest. -/
def IsSha384Hex (value : String) : Prop := ∃ d, fromHex? value = some d ∧ d.length = sha384Size

/-- The event is addressed by its label. -/
def isFixed (e : BaselineEvent) : Bool := e.label ∈ rtmr0FixedLabels

/-- **The supported events**: one for each fixed label, in any order, interleaved with the trailing
events in the order of their labels. -/
def SupportedEvents (events : List BaselineEvent) : Prop :=
  ∃ fixed trailing : List BaselineEvent, (fixed.map BaselineEvent.label).Perm rtmr0FixedLabels ∧
    trailing.map BaselineEvent.label = rtmr0TrailingLabels ∧
    Interleaves (fun ofFixed : Bool => if ofFixed then fixed else trailing) events

/-! ## Acceptance -/

/-- The fixed events are those with a fixed label, -/
theorem filter_isFixed (events : List BaselineEvent) :
    events.filter (fun e => isFixed e = true) = events.filter fun e => e.label ∈ rtmr0FixedLabels := by
  congr 1
  funext e
  simp [isFixed]

/-- and the others are the trailing ones. -/
theorem filter_not_isFixed (events : List BaselineEvent) :
    events.filter (fun e => isFixed e = false) = trailingEvents events := by
  rw [trailingEvents]
  congr 1
  funext e
  simp [isFixed]

/-- Labels that are the same up to order sort alike. -/
theorem sortLabels_eq_of_perm {xs ys : List String} (h : xs.Perm ys) : sortLabels xs = sortLabels ys := by
  refine List.Perm.eq_of_pairwise (fun a b _ _ => String.le_antisymm)
    (List.pairwise_insertionSort _ _) (List.pairwise_insertionSort _ _) ?_
  exact (List.perm_insertionSort _ _).trans (h.trans (List.perm_insertionSort _ _).symm)

/-- A list is its elements of two kinds, up to order. -/
theorem perm_filter_isFixed (events : List BaselineEvent) :
    events.Perm (events.filter (fun e => isFixed e = true)
      ++ events.filter fun e => isFixed e = false) := by
  have hnot : events.filter (fun e => isFixed e = false)
      = events.filter fun e => !decide (isFixed e = true) := by
    congr 1
    funext e
    cases isFixed e <;> rfl
  rw [hnot]
  exact (List.filter_append_perm _ events).symm

/-- **The checks let exactly the supported events pass.** -/
theorem checkRtmr0Events_ok_iff_supported {machineType : String} {events : List BaselineEvent} :
    checkRtmr0Events machineType events = .ok () ↔ SupportedEvents events := by
  rw [checkRtmr0Events_ok_iff]
  constructor
  · rintro ⟨-, hset, horder⟩
    refine ⟨events.filter fun e => isFixed e = true, events.filter fun e => isFixed e = false, ?_, ?_, ?_⟩
    · rw [filter_isFixed]
      exact map_label_fixed_perm hset
    · rw [filter_not_isFixed, map_label_trailingEvents]
      exact horder
    · have hall := interleaves_filter isFixed events
      have hseqs : (fun ofFixed : Bool => if ofFixed then events.filter fun e => isFixed e = true
          else events.filter fun e => isFixed e = false)
            = fun k => events.filter fun e => isFixed e = k := by
        funext k
        cases k <;> rfl
      rw [hseqs]
      exact hall
  · rintro ⟨fixed, trailing, hfixed, htrailing, hinter⟩
    -- an event of either sequence shows by its label which one it is of
    have hlabel : ∀ e ∈ fixed, e.label ∈ rtmr0FixedLabels := fun e he =>
      hfixed.mem_iff.mp (List.mem_map_of_mem he)
    have hother : ∀ e ∈ trailing, e.label ∉ rtmr0FixedLabels := by
      intro e he
      have hmem : e.label ∈ rtmr0TrailingLabels := by
        rw [← htrailing]
        exact List.mem_map_of_mem he
      have hall : ∀ label ∈ rtmr0TrailingLabels, label ∉ rtmr0FixedLabels := by decide
      exact hall _ hmem
    have hkey : ∀ k : Bool, ∀ e ∈ (if k then fixed else trailing), isFixed e = k := by
      intro k e he
      cases k with
      | true => exact decide_eq_true (hlabel e he)
      | false => exact decide_eq_false (hother e he)
    have hpos : events.filter (fun e => isFixed e = true) = fixed := hinter.filter_eq hkey true
    have hneg : events.filter (fun e => isFixed e = false) = trailing := hinter.filter_eq hkey false
    have hperm : (events.map BaselineEvent.label).Perm rtmr0ExpectedLabels := by
      have hsplit := (perm_filter_isFixed events).map BaselineEvent.label
      rw [hpos, hneg, List.map_append, htrailing] at hsplit
      exact hsplit.trans (hfixed.append_right _)
    refine ⟨fun label hl => ?_, sortLabels_eq_of_perm hperm, ?_⟩
    · exact hperm.mem_iff.mpr (List.mem_append_left _ hl)
    · rw [← map_label_trailingEvents, ← filter_not_isFixed, hneg, htrailing]

/-! ## The digests -/

/-- A digest that decodes is accepted, whatever it is called. -/
theorem digestFromHex_of_isSha384Hex {value : String} (h : IsSha384Hex value) (what : String) :
    ∃ d, digestFromHex value what = .ok d := by
  obtain ⟨d, hd⟩ := h
  exact ⟨d, digestFromHex_eq_ok.mpr hd⟩

/-- Every fixed label of supported events has a digest. -/
theorem exists_fixedDigest {events : List BaselineEvent} (hhex : ∀ e ∈ events, IsSha384Hex e.digest)
    {label : String} (h : label ∈ events.map BaselineEvent.label) :
    ∃ d, fixedDigest events label = .ok d := by
  obtain ⟨e₀, he₀, hlabel⟩ := List.mem_map.mp h
  obtain ⟨e, he⟩ := Option.isSome_iff_exists.mp
    (List.find?_isSome.mpr ⟨e₀, he₀, by simpa using hlabel⟩ :
      (events.find? fun e => e.label == label).isSome)
  rw [fixedDigest, digestByLabel, he]
  exact digestFromHex_of_isSha384Hex (hhex e (List.mem_of_find?_eq_some he)) _

/-- Digests in hexadecimal are read. -/
theorem exists_trailingDigests {events : List BaselineEvent}
    (hhex : ∀ e ∈ events, IsSha384Hex e.digest) : ∃ ds, trailingDigests events = .ok ds := by
  induction events with
  | nil => exact ⟨[], rfl⟩
  | cons e events ih =>
    obtain ⟨d, hd⟩ := digestFromHex_of_isSha384Hex (hhex e List.mem_cons_self)
      ("baseline " ++ e.label ++ " digest")
    obtain ⟨ds, hds⟩ := ih fun x hx => hhex x (List.mem_cons_of_mem e hx)
    rw [trailingDigests, hd, ok_bind, hds, ok_bind]
    exact ⟨_, rfl⟩

/-- The trailing digests are those decoded, in order. -/
theorem map_fromHex_of_trailingDigests {events : List BaselineEvent} {ds : List Bytes}
    (h : trailingDigests events = .ok ds) : events.map (fun e => fromHex? e.digest) = ds.map some := by
  induction events generalizing ds with
  | nil =>
    obtain rfl := pure_eq_ok.mp h
    rfl
  | cons e events ih =>
    simp only [trailingDigests, bind_eq_ok, pure_eq_ok] at h
    obtain ⟨d, hd, rest, hrest, rfl⟩ := h
    rw [List.map_cons, List.map_cons, ih hrest, (digestFromHex_eq_ok.mp hd).1]

/-! ## The register -/

/-- Two baselines with the same SecureBoot flag, the same digest for each fixed label and the same
trailing digests. -/
structure SameRtmr0 (b b' : Baseline) : Prop where
  secureboot : b.securebootEnabled = b'.securebootEnabled
  fixed : ∀ e ∈ b.rtmrEvents 0, ∀ e' ∈ b'.rtmrEvents 0, e.label = e'.label →
    e.label ∈ rtmr0FixedLabels → fromHex? e.digest = fromHex? e'.digest
  trailing : (trailingEvents (b.rtmrEvents 0)).map (fun e => fromHex? e.digest)
    = (trailingEvents (b'.rtmrEvents 0)).map fun e => fromHex? e.digest

/-- Their digests for a fixed label are the same. -/
theorem SameRtmr0.fixedDigest_eq {b b' : Baseline} (h : SameRtmr0 b b') {label : String}
    (hlabel : label ∈ rtmr0FixedLabels) {d d' : Bytes}
    (hd : fixedDigest (b.rtmrEvents 0) label = .ok d)
    (hd' : fixedDigest (b'.rtmrEvents 0) label = .ok d') : d = d' := by
  obtain ⟨e, hfind, hfeeds⟩ := fixedDigest_eq_ok_iff hd
  obtain ⟨e', hfind', hfeeds'⟩ := fixedDigest_eq_ok_iff hd'
  have he : e.label = label := by simpa using List.find?_some hfind
  have he' : e'.label = label := by simpa using List.find?_some hfind'
  have hsame := h.fixed e (List.mem_of_find?_eq_some hfind) e' (List.mem_of_find?_eq_some hfind')
    (he.trans he'.symm) (he.symm ▸ hlabel)
  rw [hfeeds.1, hfeeds'.1] at hsame
  exact Option.some.inj hsame

section

variable {sha384 : Bytes → Bytes} {firmware : Bytes}

/-- **They have the same register**, if they have one. -/
theorem SameRtmr0.computeRtmr0_eq {b b' : Baseline} (h : SameRtmr0 b b') {value value' : String}
    (hv : computeRtmr0 sha384 firmware b = .ok value)
    (hv' : computeRtmr0 sha384 firmware b' = .ok value') : value = value' := by
  simp only [computeRtmr0, rtmr0Digests, bind_eq_ok, pure_eq_ok] at hv hv'
  obtain ⟨_, ⟨_, -, cfv, hcfv, flag, hflag, tdx, htdx, pk, hpk, kek, hkek, db, hdb, dbx, hdbx, trailing,
    htrailing, rfl⟩, rfl⟩ := hv
  obtain ⟨_, ⟨_, -, cfv', hcfv', flag', hflag', tdx', htdx', pk', hpk', kek', hkek', db', hdb', dbx',
    hdbx', trailing', htrailing', rfl⟩, rfl⟩ := hv'
  obtain rfl := ok_unique hcfv hcfv'
  rw [← h.secureboot] at hflag'
  obtain rfl := ok_unique hflag hflag'
  obtain rfl := h.fixedDigest_eq (by decide) htdx htdx'
  obtain rfl := h.fixedDigest_eq (by decide) hpk hpk'
  obtain rfl := h.fixedDigest_eq (by decide) hkek hkek'
  obtain rfl := h.fixedDigest_eq (by decide) hdb hdb'
  obtain rfl := h.fixedDigest_eq (by decide) hdbx hdbx'
  have hds := h.trailing
  rw [map_fromHex_of_trailingDigests htrailing, map_fromHex_of_trailingDigests htrailing'] at hds
  obtain rfl := List.map_injective_iff.mpr (Option.some_injective _) hds
  rfl

/-- **Supported events with digests that decode give a register.** -/
theorem exists_computeRtmr0 {cfv : Bytes} (hcfv : cfvImage firmware = .ok cfv) {b : Baseline}
    (hhex : ∀ e ∈ b.rtmrEvents 0, IsSha384Hex e.digest) (hsupported : SupportedEvents (b.rtmrEvents 0)) :
    ∃ value, computeRtmr0 sha384 firmware b = .ok value := by
  have hcheck : checkRtmr0Events b.machineType (b.rtmrEvents 0) = .ok () :=
    checkRtmr0Events_ok_iff_supported.mpr hsupported
  obtain ⟨hlabels, -, -⟩ := checkRtmr0Events_ok_iff.mp hcheck
  have hfixed : ∀ label ∈ rtmr0FixedLabels, ∃ d, fixedDigest (b.rtmrEvents 0) label = .ok d :=
    fun label hl => exists_fixedDigest hhex (hlabels label hl)
  obtain ⟨tdx, htdx⟩ := hfixed "TdxTable" (by decide)
  obtain ⟨pk, hpk⟩ := hfixed "PK" (by decide)
  obtain ⟨kek, hkek⟩ := hfixed "KEK" (by decide)
  obtain ⟨db, hdb⟩ := hfixed "db" (by decide)
  obtain ⟨dbx, hdbx⟩ := hfixed "dbx" (by decide)
  obtain ⟨trailing, htrailing⟩ : ∃ ds, trailingDigests (trailingEvents (b.rtmrEvents 0)) = .ok ds :=
    exists_trailingDigests fun e he => hhex e (List.mem_of_mem_filter he)
  have hflag : computeSecurebootDigest sha384 "SecureBoot" (securebootFlag b.securebootEnabled)
      = .ok (computeVariableDigest sha384 efiGlobalVariableGuid "SecureBoot"
        (securebootFlag b.securebootEnabled)) := rfl
  simp only [computeRtmr0, rtmr0Digests, hcheck, hcfv, hflag, htdx, hpk, hkek, hdb, hdbx, htrailing,
    ok_bind]
  exact ⟨_, rfl⟩

/-- **RTMR[0] depends on the baseline only through its fixed labels and its ordered tail.** With a
configuration volume and digests that all decode, `_compute_rtmr0` returns exactly if the RTMR[0] events
are the five labelled ones, in any order, interleaved with the trailing ones in theirs. Two accepted
baselines with the same flag, the same digest for each fixed label and the same trailing digests have
the same register. -/
theorem computeRtmr0_interleaving {cfv : Bytes} (hcfv : cfvImage firmware = .ok cfv) {b : Baseline}
    (hhex : ∀ e ∈ b.rtmrEvents 0, IsSha384Hex e.digest) :
    ((∃ value, computeRtmr0 sha384 firmware b = .ok value) ↔ SupportedEvents (b.rtmrEvents 0)) ∧
    ∀ b' value value', SameRtmr0 b b' → computeRtmr0 sha384 firmware b = .ok value →
      computeRtmr0 sha384 firmware b' = .ok value' → value = value' := by
  refine ⟨?_, fun b' value value' hsame hv hv' => hsame.computeRtmr0_eq hv hv'⟩
  constructor
  · rintro ⟨value, hv⟩
    simp only [computeRtmr0, rtmr0Digests, bind_eq_ok] at hv
    obtain ⟨_, ⟨_, hcheck, -⟩, -⟩ := hv
    exact checkRtmr0Events_ok_iff_supported.mp hcheck
  · exact exists_computeRtmr0 hcfv hhex

end

/-- A baseline of events with the given labels, each with a digest of one byte value. -/
def orderedBaseline (events : List (Int × String × UInt8)) : Baseline where
  machineType := ""
  firmwareSha384 := ""
  securebootEnabled := true
  provider := ""
  platform := ""
  events := events.map fun (rtmr, label, byte) => ⟨rtmr, "", label, hex (List.replicate sha384Size byte)⟩

/-- The labelled events in front of the trailing ones, and an event of another register. -/
def plainEvents : List (Int × String × UInt8) :=
  [(0, "TdxTable", 1), (0, "PK", 2), (0, "KEK", 3), (0, "db", 4), (0, "dbx", 5), (0, "ACPI_DATA", 6),
    (0, "ACPI_DATA", 7), (0, "ACPI_DATA", 8), (0, "BootOrder", 9), (0, "Boot0001", 10), (0, "Boot0002", 11),
    (0, "Boot0003", 12), (0, "Boot0000", 13), (1, "GPT", 14)]

/-- The labelled events among the trailing ones, and in another order. -/
def interleavedEvents : List (Int × String × UInt8) :=
  [(0, "ACPI_DATA", 6), (0, "dbx", 5), (0, "ACPI_DATA", 7), (0, "TdxTable", 1), (0, "ACPI_DATA", 8),
    (0, "BootOrder", 9), (0, "db", 4), (0, "KEK", 3), (0, "PK", 2), (0, "Boot0001", 10), (0, "Boot0002", 11),
    (0, "Boot0003", 12), (0, "Boot0000", 13)]

/-- The digests of such a baseline decode. -/
theorem isSha384Hex_orderedBaseline (events : List (Int × String × UInt8)) :
    ∀ e ∈ (orderedBaseline events).rtmrEvents 0, IsSha384Hex e.digest := by
  intro e he
  obtain ⟨⟨_, _, byte⟩, -, rfl⟩ := List.mem_map.mp (List.mem_of_mem_filter he)
  exact ⟨_, fromHex_hex _, List.length_replicate⟩

/-- The two agree in what RTMR[0] depends on. -/
theorem sameRtmr0_interleaved :
    SameRtmr0 (orderedBaseline plainEvents) (orderedBaseline interleavedEvents) where
  secureboot := rfl
  fixed := by
    have hbytes : ∀ x ∈ plainEvents, ∀ y ∈ interleavedEvents, x.2.1 = y.2.1 → x.2.1 ∈ rtmr0FixedLabels →
        x.2.2 = y.2.2 := by decide
    intro e he e' he' hlabel hfixed
    obtain ⟨x, hx, rfl⟩ := List.mem_map.mp (List.mem_of_mem_filter he)
    obtain ⟨y, hy, rfl⟩ := List.mem_map.mp (List.mem_of_mem_filter he')
    simp only [hbytes x hx y hy hlabel hfixed]
  trailing := rfl

/-- Both are accepted, and they have one register. -/
theorem computeRtmr0_interleaving_sample :
    ∃ value, computeRtmr0 (Hash.sampleHash 48) sampleCfvFirmware (orderedBaseline plainEvents) = .ok value ∧
      computeRtmr0 (Hash.sampleHash 48) sampleCfvFirmware (orderedBaseline interleavedEvents) = .ok value := by
  have hchecks : checkRtmr0Events "" ((orderedBaseline plainEvents).rtmrEvents 0) = .ok () ∧
      checkRtmr0Events "" ((orderedBaseline interleavedEvents).rtmrEvents 0) = .ok () := by decide +kernel
  obtain ⟨haccepts, hsame⟩ := @computeRtmr0_interleaving (Hash.sampleHash 48) _ _ cfvImage_sampleCfvFirmware _
    (isSha384Hex_orderedBaseline plainEvents)
  obtain ⟨haccepts', -⟩ := @computeRtmr0_interleaving (Hash.sampleHash 48) _ _ cfvImage_sampleCfvFirmware _
    (isSha384Hex_orderedBaseline interleavedEvents)
  obtain ⟨value, hvalue⟩ := haccepts.mpr (checkRtmr0Events_ok_iff_supported.mp hchecks.1)
  obtain ⟨value', hvalue'⟩ := haccepts'.mpr (checkRtmr0Events_ok_iff_supported.mp hchecks.2)
  obtain rfl := hsame _ _ _ sameRtmr0_interleaved hvalue hvalue'
  exact ⟨value, hvalue, hvalue'⟩

end CvmMeasure.Tdx
