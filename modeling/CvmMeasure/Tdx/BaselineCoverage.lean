import CvmMeasure.Tdx.Rtmr0Slots

/-! # Which baseline events the registers account for

A baseline is one list of events, and each register picks its own: RTMR[0] all of its events behind a
check of their labels, RTMR[1] the first one with a GPT label, the other registers none.

* **`Extend`**, **`ReplayOf`**: a register value as a chain of computed, given and recorded digests;
* **`registerExtends`**: the extends of each register, with what the tool computes of its files
  (`ComputedFrom`), and **`computeAll_replays`**: the registers returned replay these;
* **`EveryEventExtended`**: each event of the baseline is among those of its register, once;
* **`everyEventExtended_iff`**: this is so iff the baseline has nothing but RTMR[0] events, none of the
  labelled ones twice, and at most one GPT event. -/

namespace CvmMeasure.Tdx

open Binary Python Pe Hash

universe u

/-! ## Where a register's digests come from -/

/-- One extend of a replay: with a digest the tool computes, with one it is given as text, or with that of a
baseline event. -/
inductive Extend where
  | computed (digest : Bytes)
  | given (value : String)
  | recorded (event : BaselineEvent)

/-- The baseline event an extend stands for. -/
def Extend.event? : Extend → Option BaselineEvent
  | computed _ => none
  | given _ => none
  | recorded event => some event

/-- The digest an extend feeds. -/
def Extend.Feeds : Extend → Bytes → Prop
  | computed digest, d => digest = d
  | given value, d => fromHex? value = some d ∧ d.length = sha384Size
  | recorded event, d => fromHex? event.digest = some d ∧ d.length = sha384Size

/-- The baseline events among some extends, in order. -/
def recordedEvents (steps : List Extend) : List BaselineEvent := steps.filterMap Extend.event?

/-- The events of two runs of extends. -/
theorem recordedEvents_append (xs ys : List Extend) :
    recordedEvents (xs ++ ys) = recordedEvents xs ++ recordedEvents ys :=
  List.filterMap_append

/-- Recorded extends stand for their events. -/
@[simp] theorem recordedEvents_map_recorded (events : List BaselineEvent) :
    recordedEvents (events.map .recorded) = events := by
  induction events with
  | nil => rfl
  | cons e events ih => exact congrArg (e :: ·) ih

/-- Computed extends stand for no event. -/
@[simp] theorem recordedEvents_map_computed (digests : List Bytes) :
    recordedEvents (digests.map .computed) = [] := by
  induction digests with
  | nil => rfl
  | cons d digests ih => exact ih

/-- **The register value is a replay of these extends.** -/
def ReplayOf (sha384 : Bytes → Bytes) (steps : List Extend) (value : String) : Prop :=
  ∃ digests, List.Forall₂ Extend.Feeds steps digests ∧ value = hex (replayDigests sha384 digests)

/-- Computed digests feed themselves. -/
theorem feeds_map_computed (digests : List Bytes) :
    List.Forall₂ Extend.Feeds (digests.map .computed) digests := by
  induction digests with
  | nil => exact List.Forall₂.nil
  | cons d digests ih => exact List.Forall₂.cons rfl ih

/-- A replay feeds a digest for each event it stands for. -/
theorem exists_feeds_of_mem {steps : List Extend} {digests : List Bytes}
    (h : List.Forall₂ Extend.Feeds steps digests) {e : BaselineEvent} (he : e ∈ recordedEvents steps) :
    ∃ d, fromHex? e.digest = some d ∧ d.length = sha384Size := by
  induction h with
  | nil => exact absurd he List.not_mem_nil
  | @cons step d steps digests hfeeds _ ih =>
    cases step with
    | computed digest => exact ih he
    | given value => exact ih he
    | recorded event =>
      rcases List.mem_cons.mp he with rfl | he
      · exact ⟨d, hfeeds⟩
      · exact ih he

/-! ## The extends of each register -/

/-- What the tool computes of its files. -/
structure Computed where
  /-- The configuration volume. -/
  cfv : Bytes
  securebootDigest : Bytes
  /-- The Authenticode digest of the UKI. -/
  ukiDigest : Bytes
  /-- The Authenticode digest of the kernel embedded in it. -/
  kernelDigest : Bytes
  sections : List (String × Bytes)

/-- **The values are those of firmware, UKI and SecureBoot flag.** -/
structure ComputedFrom (sha384 : Bytes → Bytes) (firmware uki : Bytes) (baseline : Baseline) (c : Computed) :
    Prop where
  cfv_eq : cfvImage firmware = .ok c.cfv
  secureboot_eq : computeSecurebootDigest sha384 "SecureBoot" (securebootFlag baseline.securebootEnabled)
    = .ok c.securebootDigest
  uki_eq : peAuthenticodeDigest sha384 uki = .ok c.ukiDigest
  kernel_eq : ∃ kernel, peExtractSection uki ".linux" true = .ok (some kernel) ∧
    peAuthenticodeDigest sha384 kernel = .ok c.kernelDigest
  sections_eq : measuredSections uki "RTMR[2]" = .ok c.sections

/-- The event `_compute_rtmr1` takes the GPT digest from if none is given. -/
def gptEvent (baseline : Baseline) : Option BaselineEvent :=
  (baseline.rtmrEvents 1).find? fun e => e.label ∈ gptLabels

/-- The extend in the slot of a label. -/
def labelledExtend (events : List BaselineEvent) (label : String) : List Extend :=
  (events.find? fun e => e.label == label).toList.map .recorded

/-- The extend in the GPT slot. -/
def gptExtend (baseline : Baseline) : Option String → List Extend
  | some value => [.given value]
  | none => (gptEvent baseline).toList.map .recorded

section

variable (sha384 : Bytes → Bytes) (c : Computed) (baseline : Baseline)

/-- The extends of RTMR[0]. -/
def rtmr0Extends : List Extend :=
  let events := baseline.rtmrEvents 0
  labelledExtend events "TdxTable" ++ [.computed (sha384 c.cfv), .computed c.securebootDigest]
    ++ labelledExtend events "PK" ++ labelledExtend events "KEK" ++ labelledExtend events "db"
    ++ labelledExtend events "dbx" ++ [.computed (separatorDigest sha384)]
    ++ (trailingEvents events).map .recorded

/-- The extends of RTMR[1]. -/
def rtmr1Extends (gptDigestHex : Option String) : List Extend :=
  [.computed (efiActionDigest sha384 "Calling EFI Application from Boot Option"),
      .computed (separatorDigest sha384)]
    ++ gptExtend baseline gptDigestHex
    ++ [c.ukiDigest, c.kernelDigest, efiActionDigest sha384 "Exit Boot Services Invocation",
      efiActionDigest sha384 "Exit Boot Services Returned with Success"].map .computed

/-- **The extends of each register.** RTMR[3] and the registers that do not exist have none. -/
def registerExtends (gptDigestHex : Option String) (rtmr : Int) : List Extend :=
  if rtmr = 0 then rtmr0Extends sha384 c baseline
  else if rtmr = 1 then rtmr1Extends sha384 c baseline gptDigestHex
  else if rtmr = 2 then (sectionDigests sha384 c.sections).map .computed
  else []

end

/-- The events `_compute_rtmr0` addresses by label, in the order of the labels. -/
def labelledEvents (events : List BaselineEvent) : List BaselineEvent :=
  rtmr0FixedLabels.filterMap fun label => events.find? fun e => e.label == label

/-- **The baseline events a register is extended with.** -/
def recordedAt (baseline : Baseline) (gptDigestHex : Option String) (rtmr : Int) : List BaselineEvent :=
  if rtmr = 0 then
    labelledEvents (baseline.rtmrEvents 0) ++ trailingEvents (baseline.rtmrEvents 0)
  else if rtmr = 1 ∧ gptDigestHex.isNone then (gptEvent baseline).toList
  else []

/-- The GPT event that a given GPT digest supersedes. -/
def supersededAt (baseline : Baseline) (gptDigestHex : Option String) (rtmr : Int) :
    List BaselineEvent :=
  if rtmr = 1 ∧ gptDigestHex.isSome then (gptEvent baseline).toList else []

/-- **Every event of the baseline is extended exactly once**, at its own register; only a GPT event may
be superseded. -/
def EveryEventExtended (baseline : Baseline) (gptDigestHex : Option String) : Prop :=
  ∀ rtmr, (baseline.rtmrEvents rtmr).Perm
    (recordedAt baseline gptDigestHex rtmr ++ supersededAt baseline gptDigestHex rtmr)

/-- The slot of a label stands for the event found there. -/
theorem recordedEvents_labelledExtend (events : List BaselineEvent) (label : String) :
    recordedEvents (labelledExtend events label) = (events.find? fun e => e.label == label).toList :=
  recordedEvents_map_recorded _

/-- The labelled slots of RTMR[0] stand for its labelled events, the others for those behind. -/
theorem recordedEvents_rtmr0Extends (sha384 : Bytes → Bytes) (c : Computed) (baseline : Baseline) :
    recordedEvents (rtmr0Extends sha384 c baseline)
      = labelledEvents (baseline.rtmrEvents 0) ++ trailingEvents (baseline.rtmrEvents 0) := by
  have hcomputed : recordedEvents [.computed (sha384 c.cfv), .computed c.securebootDigest] = [] := rfl
  have hseparator : recordedEvents [.computed (separatorDigest sha384)] = [] := rfl
  simp only [rtmr0Extends, recordedEvents_append, recordedEvents_labelledExtend, hcomputed, hseparator,
    recordedEvents_map_recorded, labelledEvents, rtmr0FixedLabels, List.filterMap_eq_flatMap_toList,
    List.flatMap_cons, List.flatMap_nil, List.append_nil, List.nil_append, List.append_assoc]

/-- The GPT slot of RTMR[1] stands for the GPT event, unless a digest is given. -/
theorem recordedEvents_rtmr1Extends (sha384 : Bytes → Bytes) (c : Computed) (baseline : Baseline)
    (gptDigestHex : Option String) :
    recordedEvents (rtmr1Extends sha384 c baseline gptDigestHex) = recordedAt baseline gptDigestHex 1 := by
  have hcomputed : recordedEvents [.computed (efiActionDigest sha384 "Calling EFI Application from Boot Option"),
      .computed (separatorDigest sha384)] = [] := rfl
  rw [rtmr1Extends, recordedEvents_append, recordedEvents_append, hcomputed, recordedEvents_map_computed,
    List.nil_append, List.append_nil]
  cases gptDigestHex with
  | none => exact recordedEvents_map_recorded _
  | some value => rfl

/-- **The extends of a register stand for the events of `recordedAt`.** -/
theorem recordedEvents_registerExtends (sha384 : Bytes → Bytes) (c : Computed) (baseline : Baseline)
    (gptDigestHex : Option String) (rtmr : Int) :
    recordedEvents (registerExtends sha384 c baseline gptDigestHex rtmr)
      = recordedAt baseline gptDigestHex rtmr := by
  by_cases h0 : rtmr = 0
  · rw [registerExtends, if_pos h0, recordedAt, if_pos h0, recordedEvents_rtmr0Extends]
  by_cases h1 : rtmr = 1
  · rw [registerExtends, if_neg h0, if_pos h1, recordedEvents_rtmr1Extends, h1]
  · have hnone : recordedAt baseline gptDigestHex rtmr = [] := by
      rw [recordedAt, if_neg h0, if_neg fun h => h1 h.1]
    rw [hnone, registerExtends, if_neg h0, if_neg h1]
    split
    · exact recordedEvents_map_computed _
    · rfl

/-! ## The registers replay these extends -/

section

variable {sha384 : Bytes → Bytes} {firmware uki : Bytes} {baseline : Baseline}

/-- A labelled digest is the one decoded from the event found by the label. -/
theorem fixedDigest_eq_ok_iff {events : List BaselineEvent} {label : String} {d : Bytes}
    (h : fixedDigest events label = .ok d) :
    ∃ e, (events.find? fun e => e.label == label) = some e ∧ Extend.Feeds (.recorded e) d := by
  unfold fixedDigest at h
  cases hfind : events.find? fun e => e.label == label with
  | none =>
    rw [digestByLabel, hfind] at h
    cases h
  | some e =>
    rw [digestByLabel, hfind] at h
    exact ⟨e, rfl, digestFromHex_eq_ok.mp h⟩

/-- The slot of a label is fed the digest looked up. -/
theorem feeds_labelledExtend {events : List BaselineEvent} {label : String} {d : Bytes}
    (h : fixedDigest events label = .ok d) :
    List.Forall₂ Extend.Feeds (labelledExtend events label) [d] := by
  obtain ⟨e, hfind, hfeeds⟩ := fixedDigest_eq_ok_iff h
  rw [labelledExtend, hfind]
  exact .cons hfeeds .nil

/-- The events behind the labelled ones are fed their digests. -/
theorem feeds_trailingDigests {events : List BaselineEvent} {ds : List Bytes}
    (h : trailingDigests events = .ok ds) :
    List.Forall₂ Extend.Feeds (events.map .recorded) ds := by
  induction events generalizing ds with
  | nil =>
    obtain rfl := pure_eq_ok.mp h
    exact List.Forall₂.nil
  | cons e events ih =>
    simp only [trailingDigests, bind_eq_ok, pure_eq_ok] at h
    obtain ⟨d, hd, rest, hrest, rfl⟩ := h
    exact List.Forall₂.cons (digestFromHex_eq_ok.mp hd) (ih hrest)

/-- The GPT slot is fed the digest `_compute_rtmr1` takes. -/
theorem feeds_gptExtend {gptDigestHex : Option String} {d : Bytes}
    (h : gptDigest baseline gptDigestHex = .ok d) :
    List.Forall₂ Extend.Feeds (gptExtend baseline gptDigestHex) [d] := by
  cases gptDigestHex with
  | some value => exact .cons (digestFromHex_eq_ok.mp h) .nil
  | none =>
    unfold gptDigest at h
    dsimp only at h
    cases hfind : (baseline.rtmrEvents 1).find? fun e => e.label ∈ gptLabels with
    | none =>
      rw [hfind] at h
      cases h
    | some event =>
      rw [hfind] at h
      have hevent : gptEvent baseline = some event := hfind
      rw [gptExtend, hevent]
      exact .cons (digestFromHex_eq_ok.mp h) .nil

/-- RTMR[0] replays its extends. -/
theorem computeRtmr0_replays {value : String} (h : computeRtmr0 sha384 firmware baseline = .ok value) :
    ∃ cfv secureboot, cfvImage firmware = .ok cfv ∧
      computeSecurebootDigest sha384 "SecureBoot" (securebootFlag baseline.securebootEnabled)
        = .ok secureboot ∧
      ∀ c : Computed, c.cfv = cfv → c.securebootDigest = secureboot →
        ReplayOf sha384 (rtmr0Extends sha384 c baseline) value := by
  simp only [computeRtmr0, rtmr0Digests, bind_eq_ok, pure_eq_ok] at h
  obtain ⟨_, ⟨_, -, cfv, hcfv, flag, hflag, tdx, htdx, pk, hpk, kek, hkek, db, hdb, dbx, hdbx, trailing,
    htrailing, rfl⟩, rfl⟩ := h
  refine ⟨cfv, flag, hcfv, hflag, ?_⟩
  rintro c rfl rfl
  refine ⟨[tdx] ++ [sha384 c.cfv, c.securebootDigest] ++ [pk] ++ [kek] ++ [db] ++ [dbx]
    ++ [separatorDigest sha384] ++ trailing, ?_, rfl⟩
  -- slot by slot, in the order of the replay
  have htable := List.rel_append (feeds_labelledExtend htdx)
    (feeds_map_computed [sha384 c.cfv, c.securebootDigest])
  have hkeys := List.rel_append (List.rel_append htable (feeds_labelledExtend hpk)) (feeds_labelledExtend hkek)
  have hdbs := List.rel_append (List.rel_append hkeys (feeds_labelledExtend hdb)) (feeds_labelledExtend hdbx)
  exact List.rel_append (List.rel_append hdbs (feeds_map_computed [separatorDigest sha384]))
    (feeds_trailingDigests htrailing)

/-- RTMR[1] replays its extends. -/
theorem computeRtmr1_replays {gptDigestHex : Option String} {value : String}
    (h : computeRtmr1 sha384 uki baseline gptDigestHex = .ok value) :
    ∃ ukiDigest kernel kernelDigest, peAuthenticodeDigest sha384 uki = .ok ukiDigest ∧
      peExtractSection uki ".linux" true = .ok (some kernel) ∧
      peAuthenticodeDigest sha384 kernel = .ok kernelDigest ∧
      ∀ c : Computed, c.ukiDigest = ukiDigest → c.kernelDigest = kernelDigest →
        ReplayOf sha384 (rtmr1Extends sha384 c baseline gptDigestHex) value := by
  simp only [computeRtmr1, bind_eq_ok] at h
  obtain ⟨gpt, hgpt, ukiAuth, huki, content, hkernel, h⟩ := h
  cases content with
  | none => cases h
  | some kernel =>
    simp only [bind_eq_ok, pure_eq_ok] at h
    obtain ⟨kernelAuth, hauth, rfl⟩ := h
    refine ⟨ukiAuth, kernel, kernelAuth, huki, hkernel, hauth, ?_⟩
    rintro c rfl rfl
    refine ⟨[efiActionDigest sha384 "Calling EFI Application from Boot Option", separatorDigest sha384] ++ [gpt]
      ++ [c.ukiDigest, c.kernelDigest, efiActionDigest sha384 "Exit Boot Services Invocation",
        efiActionDigest sha384 "Exit Boot Services Returned with Success"], ?_, rfl⟩
    exact List.rel_append (List.rel_append (feeds_map_computed [_, _]) (feeds_gptExtend hgpt))
      (feeds_map_computed _)

/-- What `compute_all` returns, register by register. -/
theorem computeAll_eq_ok {ramGib numaNodes : Int} {maxPerNodeGib : Option Int}
    {rtmr3Hex gptDigestHex : Option String} {regs : ComputedRegisters}
    (h : computeAll sha384 firmware uki baseline ramGib numaNodes maxPerNodeGib rtmr3Hex gptDigestHex
      = .ok regs) :
    computeRtmr0 sha384 firmware baseline = .ok regs.rtmr0 ∧
      computeRtmr1 sha384 uki baseline gptDigestHex = .ok regs.rtmr1 ∧
      computeRtmr2 sha384 uki = .ok regs.rtmr2 ∧
      ∃ rtmr3, givenRtmr3 rtmr3Hex = .ok rtmr3 ∧ regs.rtmr3 = hex rtmr3 := by
  simp only [computeAll, bind_eq_ok, pure_eq_ok] at h
  obtain ⟨_, -, rtmr3, hgiven, _, -, _, hrtmr0, _, hrtmr1, _, hrtmr2, rfl⟩ := h
  exact ⟨hrtmr0, hrtmr1, hrtmr2, rtmr3, hgiven, rfl⟩

/-- **The registers are the replays of these extends.** -/
structure Replays (sha384 : Bytes → Bytes) (firmware uki : Bytes) (baseline : Baseline)
    (rtmr3Hex gptDigestHex : Option String) (regs : ComputedRegisters) (c : Computed) : Prop where
  computed : ComputedFrom sha384 firmware uki baseline c
  rtmr0 : ReplayOf sha384 (registerExtends sha384 c baseline gptDigestHex 0) regs.rtmr0
  rtmr1 : ReplayOf sha384 (registerExtends sha384 c baseline gptDigestHex 1) regs.rtmr1
  rtmr2 : ReplayOf sha384 (registerExtends sha384 c baseline gptDigestHex 2) regs.rtmr2
  /-- RTMR[3] is no replay, but the value given. -/
  rtmr3 : ∃ value, givenRtmr3 rtmr3Hex = .ok value ∧ regs.rtmr3 = hex value

/-- **What `compute_all` returns** replays the extends of its registers. -/
theorem computeAll_replays {ramGib numaNodes : Int} {maxPerNodeGib : Option Int}
    {rtmr3Hex gptDigestHex : Option String} {regs : ComputedRegisters}
    (h : computeAll sha384 firmware uki baseline ramGib numaNodes maxPerNodeGib rtmr3Hex gptDigestHex
      = .ok regs) :
    ∃ c, Replays sha384 firmware uki baseline rtmr3Hex gptDigestHex regs c := by
  obtain ⟨hrtmr0, hrtmr1, hrtmr2, hrtmr3⟩ := computeAll_eq_ok h
  obtain ⟨cfv, secureboot, hcfv, hsecureboot, hreplay0⟩ := computeRtmr0_replays hrtmr0
  obtain ⟨ukiDigest, kernel, kernelDigest, huki, hkernel, hauth, hreplay1⟩ := computeRtmr1_replays hrtmr1
  simp only [computeRtmr2, bind_eq_ok, pure_eq_ok] at hrtmr2
  obtain ⟨sections, hsections, hvalue⟩ := hrtmr2
  exact ⟨⟨cfv, secureboot, ukiDigest, kernelDigest, sections⟩,
    ⟨hcfv, hsecureboot, huki, ⟨kernel, hkernel, hauth⟩, hsections⟩, hreplay0 _ rfl rfl, hreplay1 _ rfl rfl,
    ⟨_, feeds_map_computed _, hvalue.symm⟩, hrtmr3⟩

/-! ## The events of RTMR[0] -/

/-- Each key of a list without repeated keys finds its own element. -/
theorem find?_key_eq_some {α : Type u} {κ : Type} [DecidableEq κ] {key : α → κ} {l : List α}
    (hn : (l.map key).Nodup) {e : α} (he : e ∈ l) : (l.find? fun x => key x == key e) = some e := by
  cases hfind : l.find? fun x => key x == key e with
  | none =>
    rw [List.find?_eq_none] at hfind
    exact absurd (beq_self_eq_true (key e)) (hfind e he)
  | some e' =>
    have hkey := List.find?_some hfind
    rw [beq_iff_eq] at hkey
    rw [List.inj_on_of_nodup_map hn (List.mem_of_find?_eq_some hfind) he hkey]

/-- What is found by some keys has these keys, in their order. -/
theorem map_key_filterMap_find? {α : Type u} {κ : Type} [DecidableEq κ] (key : α → κ) (l : List α)
    (ks : List κ) : ((ks.filterMap fun k => l.find? fun x => key x == k).map key).Sublist ks := by
  induction ks with
  | nil => exact List.Sublist.refl []
  | cons k ks ih =>
    rw [List.filterMap_cons]
    cases hfind : l.find? fun x => key x == k with
    | none => exact ih.cons k
    | some e =>
      have hkey := List.find?_some hfind
      rw [beq_iff_eq] at hkey
      rw [List.map_cons, hkey]
      exact ih.cons_cons k

/-- **Looking up every key of a list gives its elements iff no two share a key.** -/
theorem filterMap_find?_perm_iff {α : Type u} {κ : Type} [DecidableEq κ] {key : α → κ} {l : List α}
    {ks : List κ} (hmem : ∀ e ∈ l, key e ∈ ks) (hn : ks.Nodup) :
    (ks.filterMap fun k => l.find? fun x => key x == k).Perm l ↔ (l.map key).Nodup := by
  have hkeys := (map_key_filterMap_find? key l ks).nodup hn
  constructor
  · intro hperm
    exact (hperm.map key).nodup_iff.mp hkeys
  · intro hnodup
    refine (List.perm_ext_iff_of_nodup hkeys.of_map hnodup.of_map).mpr fun e => ?_
    rw [List.mem_filterMap]
    constructor
    · rintro ⟨k, -, hfind⟩
      exact List.mem_of_find?_eq_some hfind
    · exact fun he => ⟨key e, hmem e he, find?_key_eq_some hnodup he⟩

/-- Labels that sort alike are the same up to order. -/
theorem perm_of_sortLabels_eq {xs ys : List String} (h : sortLabels xs = sortLabels ys) :
    xs.Perm ys := by
  have hys : (sortLabels xs).Perm ys := by
    rw [h]
    exact List.perm_insertionSort _ ys
  exact (List.perm_insertionSort _ xs).symm.trans hys

/-- The events with a fixed label have these labels, each once. -/
theorem map_label_fixed_perm {events : List BaselineEvent}
    (h : sortLabels (events.map BaselineEvent.label) = sortLabels rtmr0ExpectedLabels) :
    ((events.filter fun e => e.label ∈ rtmr0FixedLabels).map BaselineEvent.label).Perm
      rtmr0FixedLabels := by
  have hperm := (perm_of_sortLabels_eq h).filter fun label => label ∈ rtmr0FixedLabels
  have hfixed : rtmr0ExpectedLabels.filter (fun label => label ∈ rtmr0FixedLabels)
      = rtmr0FixedLabels := by decide
  rw [hfixed, List.filter_map] at hperm
  exact hperm

/-- No two events share one of the fixed labels. -/
def FixedOnce (events : List BaselineEvent) : Prop :=
  ((events.filter fun e => e.label ∈ rtmr0FixedLabels).map BaselineEvent.label).Nodup

/-- **Addressing by label and by position takes every event iff no two share a fixed label.** -/
theorem labelledEvents_append_perm_iff (events : List BaselineEvent) :
    events.Perm (labelledEvents events ++ trailingEvents events) ↔ FixedOnce events := by
  have hlookup : labelledEvents events
      = rtmr0FixedLabels.filterMap fun label =>
          (events.filter fun e => e.label ∈ rtmr0FixedLabels).find? fun e => e.label == label := by
    apply List.filterMap_congr
    intro label hlabel
    rw [List.find?_filter]
    congr 1
    funext e
    by_cases heq : e.label = label
    · simp [heq, hlabel]
    · simp [heq]
  have hmem : ∀ e ∈ events.filter fun e => e.label ∈ rtmr0FixedLabels, e.label ∈ rtmr0FixedLabels :=
    fun e he => of_decide_eq_true (List.mem_filter.mp he).2
  have htrailing : trailingEvents events
      = events.filter fun e => !decide (e.label ∈ rtmr0FixedLabels) := by
    rw [trailingEvents]
    congr 1
    funext e
    rw [decide_not]
  -- the events are those with a fixed label and the others
  have hsplit := List.filter_append_perm (fun e => decide (e.label ∈ rtmr0FixedLabels)) events
  rw [FixedOnce, ← filterMap_find?_perm_iff hmem (by decide), ← hlookup, htrailing]
  constructor
  · intro hperm
    exact ((List.perm_append_right_iff _).mp (hsplit.trans hperm)).symm
  · intro hperm
    exact hsplit.symm.trans (hperm.symm.append_right _)

/-- The events that the checks let pass are those addressed by label and those behind them. -/
theorem labelledEvents_append_perm {machineType : String} {events : List BaselineEvent}
    (h : checkRtmr0Events machineType events = .ok ()) :
    events.Perm (labelledEvents events ++ trailingEvents events) := by
  obtain ⟨-, hset, -⟩ := checkRtmr0Events_ok_iff.mp h
  exact (labelledEvents_append_perm_iff events).mpr ((map_label_fixed_perm hset).nodup_iff.mpr (by decide))

/-! ## The other events -/

/-- A register other than RTMR[0] has its events among those that are not RTMR[0]'s. -/
theorem rtmrEvents_eq_of_ne {rtmr : Int} (h : rtmr ≠ 0) :
    baseline.rtmrEvents rtmr
      = (baseline.events.filter fun e => e.rtmr ≠ 0).filter fun e => e.rtmr == rtmr := by
  rw [Baseline.rtmrEvents, List.filter_filter]
  congr 1
  funext e
  by_cases heq : e.rtmr = rtmr
  · simp [heq, h]
  · simp [heq]

/-- RTMR[1] is extended with the GPT event, or a given digest supersedes it. -/
theorem recordedAt_one_append (baseline : Baseline) (gptDigestHex : Option String) :
    recordedAt baseline gptDigestHex 1 ++ supersededAt baseline gptDigestHex 1
      = (gptEvent baseline).toList := by
  cases gptDigestHex with
  | none => exact List.append_nil _
  | some value => rfl

/-- The other registers are extended with no event. -/
theorem recordedAt_other {rtmr : Int} (h0 : rtmr ≠ 0) (h1 : rtmr ≠ 1) (gptDigestHex : Option String) :
    recordedAt baseline gptDigestHex rtmr ++ supersededAt baseline gptDigestHex rtmr = [] := by
  rw [recordedAt, supersededAt, if_neg h0, if_neg (fun h => h1 h.1), if_neg (fun h => h1 h.1)]
  rfl

/-- Where every event is extended, the events that are not of RTMR[0] are those of RTMR[1]. -/
theorem EveryEventExtended.filter_eq {gptDigestHex : Option String}
    (h : EveryEventExtended baseline gptDigestHex) :
    baseline.events.filter (fun e => e.rtmr ≠ 0) = baseline.rtmrEvents 1 := by
  rw [Baseline.rtmrEvents]
  apply List.filter_congr
  intro e he
  by_cases h0 : e.rtmr = 0
  · simp [h0]
  by_cases h1 : e.rtmr = 1
  · simp [h1]
  · -- an event of another register is not extended
    have hnone := h e.rtmr
    rw [recordedAt_other h0 h1, List.perm_nil] at hnone
    have hmem : e ∈ baseline.rtmrEvents e.rtmr :=
      List.mem_filter.mpr ⟨he, beq_self_eq_true e.rtmr⟩
    rw [hnone] at hmem
    cases hmem

/-- The baseline has events of RTMR[0] only, but for at most one GPT event of RTMR[1]. -/
def NothingElse (baseline : Baseline) : Prop :=
  baseline.events.filter (fun e => e.rtmr ≠ 0) = [] ∨
    ∃ e, baseline.events.filter (fun e => e.rtmr ≠ 0) = [e] ∧ e.rtmr = 1 ∧ e.label ∈ gptLabels

/-- Where every event is extended, there is nothing but RTMR[0] events and one GPT event. -/
theorem EveryEventExtended.nothingElse {gptDigestHex : Option String}
    (h : EveryEventExtended baseline gptDigestHex) : NothingElse baseline := by
  have hone := h 1
  rw [recordedAt_one_append] at hone
  unfold NothingElse
  rw [h.filter_eq]
  cases hgpt : gptEvent baseline with
  | none =>
    rw [hgpt] at hone
    exact Or.inl (List.perm_nil.mp hone)
  | some e =>
    rw [hgpt] at hone
    have hmem : e ∈ baseline.rtmrEvents 1 := List.mem_of_find?_eq_some hgpt
    have hlabel := List.find?_some hgpt
    rw [decide_eq_true_eq] at hlabel
    exact Or.inr ⟨e, List.perm_singleton.mp hone, eq_of_beq (List.mem_filter.mp hmem).2, hlabel⟩

/-- RTMR[0] leaves no event out if no two share a fixed label. -/
theorem recordedAt_zero_append (baseline : Baseline) (gptDigestHex : Option String) :
    recordedAt baseline gptDigestHex 0 ++ supersededAt baseline gptDigestHex 0
      = labelledEvents (baseline.rtmrEvents 0) ++ trailingEvents (baseline.rtmrEvents 0) := by
  have hnone : supersededAt baseline gptDigestHex 0 = [] := if_neg fun h => absurd h.1 (by decide)
  rw [hnone, List.append_nil, recordedAt, if_pos rfl]

/-- The converse, for a baseline without events of one fixed label. -/
theorem NothingElse.everyEventExtended (h : NothingElse baseline) (hfixed : FixedOnce (baseline.rtmrEvents 0))
    (gptDigestHex : Option String) : EveryEventExtended baseline gptDigestHex := by
  intro rtmr
  by_cases h0 : rtmr = 0
  · subst h0
    rw [recordedAt_zero_append]
    exact (labelledEvents_append_perm_iff _).mpr hfixed
  by_cases h1 : rtmr = 1
  · subst h1
    rw [recordedAt_one_append, gptEvent, rtmrEvents_eq_of_ne one_ne_zero]
    rcases h with hnil | ⟨e, hsingle, hrtmr, hlabel⟩
    · rw [hnil]
      exact List.Perm.refl _
    · rw [hsingle]
      simp [hrtmr, hlabel]
  · rw [recordedAt_other h0 h1, rtmrEvents_eq_of_ne h0]
    rcases h with hnil | ⟨e, hsingle, hrtmr, -⟩
    · rw [hnil]
      exact List.Perm.refl _
    · have hnone : [e].filter (fun e => e.rtmr == rtmr) = [] := by
        apply List.filter_eq_nil_iff.mpr
        intro x hx
        rw [List.mem_singleton.mp hx, beq_iff_eq, hrtmr]
        exact Ne.symm h1
      rw [hsingle, hnone]

/-- **Every event is extended iff there is nothing else and no two share a fixed label.** -/
theorem everyEventExtended_iff (gptDigestHex : Option String) :
    EveryEventExtended baseline gptDigestHex ↔
      NothingElse baseline ∧ FixedOnce (baseline.rtmrEvents 0) := by
  constructor
  · intro h
    have hzero := h 0
    rw [recordedAt_zero_append] at hzero
    exact ⟨h.nothingElse, (labelledEvents_append_perm_iff _).mp hzero⟩
  · rintro ⟨hnothing, hfixed⟩
    exact hnothing.everyEventExtended hfixed gptDigestHex

end

end CvmMeasure.Tdx
