import CvmMeasure.Tdx.Extraction
import CvmMeasure.Tdx.Registers

/-! # The slots of RTMR[0]

`_compute_rtmr0` replays sixteen digests, each in a slot of its own. This file says where each digest
comes from when the baseline was extracted from a log, in terms of the log.

* **`Rtmr0Slot`**, **`slotDigest`**: a slot, and the digest the tool puts there;
* **`checkRtmr0Events_ok_iff`**: what the tool checks of a baseline's labels;
* **`rtmr0Digests_stored`**: the sixteen digests. -/

namespace CvmMeasure.Tdx

open Binary Python Tcg

/-! ## Digests and labels of a baseline -/

/-- A digest is read back from its hexadecimal. -/
theorem digestFromHex_hex {d : Bytes} (h : d.length = sha384Size) (what : String) :
    digestFromHex (hex d) what = .ok d := by
  simp only [digestFromHex, fromHex_hex, bind_eq_ok, refuseIf_eq_ok, pure_eq_ok, not_not]
  exact ⟨(), h, trivial⟩

/-- A digest is decoded exactly from its 48 bytes in hexadecimal. -/
theorem digestFromHex_eq_ok {value what : String} {raw : Bytes} : digestFromHex value what = .ok raw ↔
    fromHex? value = some raw ∧ raw.length = sha384Size := by
  unfold digestFromHex
  cases fromHex? value with
  | none =>
    refine iff_of_false throw_ne_ok ?_
    rintro ⟨h, -⟩
    cases h
  | some bs =>
    simp only [bind_eq_ok, refuseIf_eq_ok, not_not, pure_eq_ok, exists_const, Option.some.injEq]
    constructor
    · rintro ⟨hlen, rfl⟩
      exact ⟨rfl, hlen⟩
    · rintro ⟨rfl, hlen⟩
      exact ⟨hlen, rfl⟩

/-- A label is among those of the events iff some event answers to it. -/
theorem digestByLabel_isNone (events : List BaselineEvent) (label : String) :
    (digestByLabel events label).isNone = true ↔ label ∉ events.map BaselineEvent.label := by
  rw [digestByLabel, Option.isNone_map, Option.isNone_iff_eq_none, List.find?_eq_none]
  simp

/-- The trailing events are those whose labels are not fixed. -/
theorem map_label_trailingEvents (events : List BaselineEvent) :
    (trailingEvents events).map BaselineEvent.label
      = (events.map BaselineEvent.label).filter fun label => label ∉ rtmr0FixedLabels := by
  rw [trailingEvents, List.filter_map]
  rfl

/-- **The checks read the labels only**: the fixed ones are there, the labels are the expected ones up
to order, and without the fixed ones they are in order. -/
theorem checkRtmr0Events_ok_iff {machineType : String} {events : List BaselineEvent} :
    checkRtmr0Events machineType events = .ok () ↔
      (∀ label ∈ rtmr0FixedLabels, label ∈ events.map BaselineEvent.label) ∧
      sortLabels (events.map BaselineEvent.label) = sortLabels rtmr0ExpectedLabels ∧
      (events.map BaselineEvent.label).filter (fun label => label ∉ rtmr0FixedLabels)
        = rtmr0TrailingLabels := by
  simp only [checkRtmr0Events, bind_eq_ok, refuseIf_eq_ok, not_not, map_label_trailingEvents,
    List.filter_eq_nil_iff, digestByLabel_isNone]
  constructor
  · rintro ⟨_, hfixed, _, hset, horder⟩
    exact ⟨hfixed, hset, horder⟩
  · rintro ⟨hfixed, hset, horder⟩
    exact ⟨(), hfixed, (), hset, horder⟩

/-! ## The slots -/

/-- Where a digest of the RTMR[0] replay comes from: the event with a label, the firmware, the flag, a
constant, or the position among the events behind the labelled ones. -/
inductive Rtmr0Slot where
  | labelled (label : String)
  | firmwareBlob
  | secureBoot
  | separator
  | positional (index : Nat)
  deriving DecidableEq, Repr

/-- The slots in replay order. -/
def rtmr0Slots : List Rtmr0Slot :=
  [.labelled "TdxTable", .firmwareBlob, .secureBoot, .labelled "PK", .labelled "KEK", .labelled "db",
    .labelled "dbx", .separator] ++ (List.range rtmr0TrailingLabels.length).map .positional

/-- The events behind the labelled ones. -/
def positionalEvents (stored : List EventLogEntry) : List EventLogEntry :=
  stored.filter fun e => labelForEvent 0 e ∉ rtmr0FixedLabels

section

variable (sha384 : Bytes → Bytes)

/-- The digest of the SecureBoot variable with the given flag. -/
def securebootDigest (enabled : Bool) : Bytes :=
  computeVariableDigest sha384 efiGlobalVariableGuid "SecureBoot" (securebootFlag enabled)

/-- The digest the tool puts into a slot, for the events a log stores. -/
def slotDigest (cfv : Bytes) (enabled : Bool) (stored : List EventLogEntry) :
    Rtmr0Slot → Option Bytes
  | .labelled label =>
    (stored.find? fun e => labelForEvent 0 e == label).bind fun e => e.digest? tpmAlgSha384
  | .firmwareBlob => some (sha384 cfv)
  | .secureBoot => some (securebootDigest sha384 enabled)
  | .separator => some (separatorDigest sha384)
  | .positional i => (positionalEvents stored)[i]?.bind fun e => e.digest? tpmAlgSha384

end

/-! ## The digests replayed -/

/-- Every stored event carries a digest of the register's width. -/
def HasSha384 (e : EventLogEntry) : Prop :=
  ∃ d, e.digest? tpmAlgSha384 = some d ∧ d.length = sha384Size

/-- The digest of a fixed label is that of the first stored event under it. -/
theorem fixedDigest_eq_ok {stored : List EventLogEntry} (hstored : ∀ e ∈ stored, HasSha384 e)
    {label : String} (h : label ∈ stored.map (labelForEvent 0)) :
    ∃ d, fixedDigest (stored.map (toBaselineEvent 0)) label = .ok d ∧
      ((stored.find? fun e => labelForEvent 0 e == label).bind fun e => e.digest? tpmAlgSha384)
        = some d := by
  obtain ⟨e₀, he₀, hlabel⟩ := List.mem_map.mp h
  obtain ⟨e, he⟩ := Option.isSome_iff_exists.mp
    (List.find?_isSome.mpr ⟨e₀, he₀, by simpa using hlabel⟩ :
      (stored.find? fun e => labelForEvent 0 e == label).isSome)
  obtain ⟨d, hd, hlen⟩ := hstored e (List.mem_of_find?_eq_some he)
  refine ⟨d, ?_, by rw [he]; exact hd⟩
  have hfind : digestByLabel (stored.map (toBaselineEvent 0)) label = some (hex d) := by
    rw [digestByLabel, List.find?_map]
    simp only [Function.comp_def, toBaselineEvent, he, Option.map_some, hd, Option.getD_some]
  rw [fixedDigest, hfind]
  exact digestFromHex_hex hlen _

/-- The trailing digests are those of the events, in their order. -/
theorem trailingDigests_eq_ok {events : List EventLogEntry} (h : ∀ e ∈ events, HasSha384 e) :
    ∃ ds, trailingDigests (events.map (toBaselineEvent 0)) = .ok ds ∧
      ds.map some = events.map fun e => e.digest? tpmAlgSha384 := by
  induction events with
  | nil => exact ⟨[], rfl, rfl⟩
  | cons e events ih =>
    obtain ⟨d, hd, hlen⟩ := h e List.mem_cons_self
    obtain ⟨ds, hds, hmap⟩ := ih fun x hx => h x (List.mem_cons_of_mem e hx)
    refine ⟨d :: ds, ?_, by rw [List.map_cons, List.map_cons, hmap, hd]⟩
    simp only [List.map_cons, trailingDigests, toBaselineEvent, hd, Option.getD_some,
      digestFromHex_hex hlen, ok_bind] at hds ⊢
    rw [hds]
    rfl

/-- The trailing events of a baseline are the positional events of the log. -/
theorem trailingEvents_toBaselineEvent (stored : List EventLogEntry) :
    trailingEvents (stored.map (toBaselineEvent 0))
      = (positionalEvents stored).map (toBaselineEvent 0) := by
  rw [trailingEvents, List.filter_map]
  rfl

/-- A list read position by position. -/
theorem map_range_getElem?_bind {α β : Type} (l : List α) (f : α → Option β) :
    ((List.range l.length).map fun i => l[i]?.bind f) = l.map f := by
  apply List.ext_getElem?
  intro i
  by_cases hi : i < l.length
  · simp [hi]
  · simp [hi]

/-- **The sixteen digests replayed.** If a baseline's RTMR[0] events are those stored of a log and pass
the checks, and the firmware has a configuration volume, each slot holds its digest. -/
theorem rtmr0Digests_stored (sha384 : Bytes → Bytes) {firmware cfv : Bytes} {b : Baseline}
    {stored : List EventLogEntry} (hevents : b.rtmrEvents 0 = stored.map (toBaselineEvent 0))
    (hstored : ∀ e ∈ stored, HasSha384 e)
    (hcheck : checkRtmr0Events b.machineType (b.rtmrEvents 0) = .ok ())
    (hcfv : cfvImage firmware = .ok cfv) :
    ∃ ds, rtmr0Digests sha384 firmware b = .ok ds ∧
      ds.map some = rtmr0Slots.map (slotDigest sha384 cfv b.securebootEnabled stored) := by
  obtain ⟨hfixed, -, horder⟩ := checkRtmr0Events_ok_iff.mp hcheck
  have hlabels : (b.rtmrEvents 0).map BaselineEvent.label = stored.map (labelForEvent 0) := by
    rw [hevents, List.map_map]
    rfl
  rw [hlabels] at hfixed
  -- a digest for every fixed label
  have hslot : ∀ label ∈ rtmr0FixedLabels, ∃ d, fixedDigest (b.rtmrEvents 0) label = .ok d ∧
      slotDigest sha384 cfv b.securebootEnabled stored (.labelled label) = some d := by
    intro label hlabel
    rw [hevents]
    exact fixedDigest_eq_ok hstored (hfixed label hlabel)
  obtain ⟨tdxTable, htdxTable, htdxTable'⟩ := hslot "TdxTable" (by decide)
  obtain ⟨pk, hpk, hpk'⟩ := hslot "PK" (by decide)
  obtain ⟨kek, hkek, hkek'⟩ := hslot "KEK" (by decide)
  obtain ⟨db, hdb, hdb'⟩ := hslot "db" (by decide)
  obtain ⟨dbx, hdbx, hdbx'⟩ := hslot "dbx" (by decide)
  -- and one for every event behind them, as many as there are positions
  have hpos : ∀ e ∈ positionalEvents stored, HasSha384 e :=
    fun e he => hstored e (List.mem_filter.mp he).1
  obtain ⟨trailing, htrailing, htrailing'⟩ := trailingDigests_eq_ok hpos
  rw [← trailingEvents_toBaselineEvent, ← hevents] at htrailing
  have hcount : (positionalEvents stored).length = rtmr0TrailingLabels.length := by
    rw [← horder, ← map_label_trailingEvents, hevents, trailingEvents_toBaselineEvent,
      List.length_map, List.length_map]
  have hsb : computeSecurebootDigest sha384 "SecureBoot" (securebootFlag b.securebootEnabled)
      = .ok (securebootDigest sha384 b.securebootEnabled) := rfl
  refine ⟨[tdxTable, sha384 cfv, securebootDigest sha384 b.securebootEnabled, pk, kek, db, dbx,
    separatorDigest sha384] ++ trailing, ?_, ?_⟩
  · simp only [rtmr0Digests, hcheck, hcfv, hsb, htdxTable, hpk, hkek, hdb, hdbx, htrailing, ok_bind]
    rfl
  · rw [rtmr0Slots, List.map_append, List.map_append, htrailing', ← hcount, List.map_map]
    have hread := map_range_getElem?_bind (positionalEvents stored)
      fun e => e.digest? tpmAlgSha384
    rw [← hread]
    simp only [List.map_cons, List.map_nil, htdxTable', hpk', hkek', hdb', hdbx']
    rfl

end CvmMeasure.Tdx
