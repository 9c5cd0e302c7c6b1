import CvmMeasure.Tdx.Rtmr0Agreement
import CvmMeasure.Tdx.VariableData

/-! # RTMR[0] of the supported firmware

The one event sequence the tool reconstructs, as kinds of events, and the agreement of replay and
computation on it.

* **`supportedSequence`**: the sixteen events of the supported firmware;
* **`NamedEvents`**: the same events by name, each of its kind; `NamedEvents.map_slotDigest` fills the
  slots with them;
* **`IsSupported.inSlots`**: a log of these events is in slots;
* **`computeRtmr0_eq_replay`**: on such a log both ways give one value. -/

namespace CvmMeasure.Tdx

open Binary Python Tcg Hash

/-! ## Kinds of events -/

/-- A kind of RTMR[0] event. -/
inductive Rtmr0Event where
  | handoffTables
  | firmwareBlob
  | secureBoot
  | driverConfig (name : String)
  | separator
  | configFlags
  | bootVariable (name : String)
  deriving DecidableEq, Repr

/-- The RTMR[0] events of the supported firmware. -/
def supportedSequence : List Rtmr0Event :=
  [.handoffTables, .firmwareBlob, .secureBoot, .driverConfig "PK", .driverConfig "KEK",
    .driverConfig "db", .driverConfig "dbx", .separator, .configFlags, .configFlags, .configFlags,
    .bootVariable "BootOrder", .bootVariable "Boot0001", .bootVariable "Boot0002",
    .bootVariable "Boot0003", .bootVariable "Boot0000"]

/-- The data of a SecureBoot event with the given value. -/
def securebootData (value : UInt8) : Bytes :=
  buildUefiVariableData efiGlobalVariableGuid "SecureBoot" [value]

namespace Rtmr0Event

/-- The event type of a kind. -/
def eventType : Rtmr0Event → Nat
  | handoffTables => evEfiHandoffTables2
  | firmwareBlob => evEfiPlatformFirmwareBlob2
  | secureBoot => evEfiVariableDriverConfig
  | driverConfig _ => evEfiVariableDriverConfig
  | separator => evSeparator
  | configFlags => evPlatformConfigFlags
  | bootVariable _ => evEfiVariableBoot

/-- What an event of a kind holds: the name of a variable, and the digest of what can be computed. -/
def Describes (sha384 : Bytes → Bytes) (cfv : Bytes) (e : EventLogEntry) : Rtmr0Event → Prop
  | firmwareBlob => e.digest? tpmAlgSha384 = some (sha384 cfv)
  | secureBoot =>
    (e.eventData = securebootData 0x00 ∨ e.eventData = securebootData 0x01) ∧
      e.digest? tpmAlgSha384 = some (sha384 e.eventData)
  | driverConfig name => uefiVarName e.eventData = some name
  | separator => e.digest? tpmAlgSha384 = some (separatorDigest sha384)
  | bootVariable name => uefiVarName e.eventData = some name
  | handoffTables => True
  | configFlags => True

instance (sha384 : Bytes → Bytes) (cfv : Bytes) (e : EventLogEntry) (k : Rtmr0Event) :
    Decidable (k.Describes sha384 cfv e) := by
  cases k <;> unfold Describes <;> infer_instance

/-- The event is of the kind and carries a SHA-384 digest. -/
def Matches (sha384 : Bytes → Bytes) (cfv : Bytes) (k : Rtmr0Event) (e : EventLogEntry) : Prop :=
  (e.digest? tpmAlgSha384).isSome ∧ e.eventType = k.eventType ∧ k.Describes sha384 cfv e

instance (sha384 : Bytes → Bytes) (cfv : Bytes) (k : Rtmr0Event) (e : EventLogEntry) :
    Decidable (k.Matches sha384 cfv e) :=
  inferInstanceAs (Decidable (_ ∧ _ ∧ _))

/-- The label a baseline has for a kind; none for the kinds it does not store. -/
def label? : Rtmr0Event → Option String
  | handoffTables => some "TdxTable"
  | driverConfig name => some name
  | configFlags => some "ACPI_DATA"
  | bootVariable name => some name
  | _ => none

variable {sha384 : Bytes → Bytes} {cfv : Bytes} {e : EventLogEntry} {k : Rtmr0Event}

/-- The data of a SecureBoot event gives back the variable and its value. -/
theorem securebootData_spec (value : UInt8) :
    uefiVarName (securebootData value) = some "SecureBoot" ∧
      securebootValue (securebootData value) = (value != 0x00) := by
  have hlength : "SecureBoot".length < 2 ^ 64 := by decide +kernel
  have hbmp : ∀ c ∈ "SecureBoot".toList, InBmp c :=
    List.all_iff_forall_prop.mp (by decide +kernel)
  exact ⟨uefiVarName_build isGuidText_global hlength hbmp,
    securebootValue_build isGuidText_global hlength hbmp value⟩

/-- An event of another type is not the SecureBoot variable. -/
theorem isSecureBootVariable_of_ne (h : e.eventType ≠ evEfiVariableDriverConfig) :
    isSecureBootVariable e = false := by
  simp [isSecureBootVariable, h]

/-- Of the kinds only SecureBoot is the SecureBoot variable. -/
theorem Matches.isSecureBootVariable_eq (h : k.Matches sha384 cfv e)
    (hk : k ≠ .driverConfig "SecureBoot") : isSecureBootVariable e = (k == .secureBoot) := by
  obtain ⟨-, htype, h⟩ := h
  -- only the two kinds of driver-config events need a look at the data
  cases k with
  | handoffTables => exact isSecureBootVariable_of_ne (by rw [htype]; decide)
  | firmwareBlob => exact isSecureBootVariable_of_ne (by rw [htype]; decide)
  | secureBoot =>
    rcases h.1 with hdata | hdata
    · simp [isSecureBootVariable, htype, eventType, hdata, (securebootData_spec 0x00).1]
    · simp [isSecureBootVariable, htype, eventType, hdata, (securebootData_spec 0x01).1]
  | driverConfig name =>
    have hname : name ≠ "SecureBoot" := fun heq => hk (by rw [heq])
    have hvar : uefiVarName e.eventData = some name := h
    simp [isSecureBootVariable, htype, eventType, hvar, hname]
  | separator => exact isSecureBootVariable_of_ne (by rw [htype]; decide)
  | configFlags => exact isSecureBootVariable_of_ne (by rw [htype]; decide)
  | bootVariable name => exact isSecureBootVariable_of_ne (by rw [htype]; simp only [eventType]; decide)

/-- A baseline stores the kinds that have a label. -/
theorem Matches.isStored_eq (h : k.Matches sha384 cfv e) (hk : k ≠ .driverConfig "SecureBoot") :
    isStored 0 e = k.label?.isSome := by
  have hvar := h.isSecureBootVariable_eq hk
  obtain ⟨hdigest, htype, -⟩ := h
  rw [isStored, hdigest, isComputable, hvar, htype]
  cases k <;> rfl

/-- A variable event is labelled with the name of its variable. -/
theorem labelForEvent_variable {name : String}
    (htype : e.eventType = evEfiVariableDriverConfig ∨ e.eventType = evEfiVariableBoot)
    (hvar : uefiVarName e.eventData = some name) (hne : name ≠ "") : labelForEvent 0 e = name := by
  have hoverride : labelOverrides.lookup (0, e.eventType) = none := by
    rcases htype with htype | htype
    · rw [htype]
      decide
    · rw [htype]
      decide
  simp only [labelForEvent, hoverride, if_pos htype, hvar]
  exact if_neg hne

/-- And under that label. -/
theorem Matches.labelForEvent_eq (h : k.Matches sha384 cfv e) {label : String}
    (hlabel : k.label? = some label) (hne : label ≠ "") : labelForEvent 0 e = label := by
  obtain ⟨-, htype, h⟩ := h
  -- the overridden types first, then the variables
  cases k with
  | handoffTables =>
    rw [labelForEvent, htype]
    exact Option.some.inj hlabel
  | configFlags =>
    rw [labelForEvent, htype]
    exact Option.some.inj hlabel
  | driverConfig name =>
    obtain rfl := Option.some.inj hlabel
    exact labelForEvent_variable (Or.inl htype) h hne
  | bootVariable name =>
    obtain rfl := Option.some.inj hlabel
    exact labelForEvent_variable (Or.inr htype) h hne
  | firmwareBlob => cases hlabel
  | secureBoot => cases hlabel
  | separator => cases hlabel

end Rtmr0Event

section Supported

variable {sha384 : Bytes → Bytes} {cfv : Bytes} {log : ParsedEventLog}

/-- The RTMR[0] events of the log are the supported ones, each with its digest. -/
def IsSupported (sha384 : Bytes → Bytes) (cfv : Bytes) (log : ParsedEventLog) : Prop :=
  List.Forall₂ (Rtmr0Event.Matches sha384 cfv) supportedSequence (log.eventsFor 0)

/-- A kind of the supported sequence is no plain SecureBoot variable, and its label is not empty. -/
def Rtmr0Event.Regular (k : Rtmr0Event) : Prop :=
  k ≠ .driverConfig "SecureBoot" ∧ k.label? ≠ some ""

/-- The labels stored are those of the kinds. -/
theorem map_label_filter_isStored {ks : List Rtmr0Event} {es : List EventLogEntry}
    (hks : ∀ k ∈ ks, k.Regular) (h : List.Forall₂ (Rtmr0Event.Matches sha384 cfv) ks es) :
    (es.filter (isStored 0)).map (labelForEvent 0) = ks.filterMap Rtmr0Event.label? := by
  induction h with
  | nil => rfl
  | @cons k e ks es hmatch _ ih =>
    obtain ⟨hplain, hne⟩ := hks k List.mem_cons_self
    have hstored := hmatch.isStored_eq hplain
    have hrest := ih fun x hx => hks x (List.mem_cons_of_mem k hx)
    cases hlabel : k.label? with
    | none =>
      rw [hlabel] at hstored
      rw [List.filter_cons_of_neg (by simp [hstored]), List.filterMap_cons_none hlabel, hrest]
    | some label =>
      rw [hlabel] at hstored hne
      rw [List.filter_cons_of_pos hstored, List.filterMap_cons_some hlabel, List.map_cons, hrest,
        hmatch.labelForEvent_eq hlabel fun heq => hne (by rw [heq])]

/-- All supported kinds are regular. -/
theorem supportedSequence_regular : ∀ k ∈ supportedSequence, k.Regular := by
  unfold Rtmr0Event.Regular
  decide

/-- A supported log passes the tool's checks. -/
theorem IsSupported.check (h : IsSupported sha384 cfv log) (machineType : String) :
    checkRtmr0Events machineType ((storedEvents log 0).map (toBaselineEvent 0)) = .ok () := by
  have hlabels : ((storedEvents log 0).map (toBaselineEvent 0)).map BaselineEvent.label
      = rtmr0ExpectedLabels := by
    rw [List.map_map]
    exact map_label_filter_isStored supportedSequence_regular h
  rw [checkRtmr0Events_ok_iff, hlabels]
  exact ⟨by decide, rfl, by decide⟩

/-- An event of a list of described events is of one of the kinds. -/
theorem exists_matches_of_mem {ks : List Rtmr0Event} {es : List EventLogEntry}
    (h : List.Forall₂ (Rtmr0Event.Matches sha384 cfv) ks es) {e : EventLogEntry} (he : e ∈ es) :
    ∃ k ∈ ks, k.Matches sha384 cfv e := by
  induction h with
  | nil => cases he
  | @cons k e' ks es hmatch _ ih =>
    rcases List.mem_cons.mp he with rfl | he
    · exact ⟨k, List.mem_cons_self, hmatch⟩
    · obtain ⟨k', hk', hmatch'⟩ := ih he
      exact ⟨k', List.mem_cons_of_mem k hk', hmatch'⟩

/-- The events behind the separator are stored, and none of them has a fixed label. -/
theorem positional_of_matches {ks : List Rtmr0Event} {es : List EventLogEntry}
    (hks : ∀ k ∈ ks, k.Regular ∧ ∃ label ∈ k.label?, label ∉ rtmr0FixedLabels)
    (h : List.Forall₂ (Rtmr0Event.Matches sha384 cfv) ks es) :
    es.filter (isStored 0) = es ∧ positionalEvents es = es := by
  rw [positionalEvents, List.filter_eq_self, List.filter_eq_self]
  refine ⟨fun e he => ?_, fun e he => ?_⟩
  · obtain ⟨k, hk, hmatch⟩ := exists_matches_of_mem h he
    obtain ⟨hregular, label, hlabel, -⟩ := hks k hk
    rw [hmatch.isStored_eq hregular.1, hlabel]
    rfl
  · obtain ⟨k, hk, hmatch⟩ := exists_matches_of_mem h he
    obtain ⟨hregular, label, hlabel, hfixed⟩ := hks k hk
    rw [hmatch.labelForEvent_eq hlabel fun heq => hregular.2 (by rw [hlabel, heq])]
    simpa using hfixed

/-- The events with a digest, read as events. -/
theorem map_some_filterMap {α β : Type} {f : α → Option β} {l : List α} (h : ∀ a ∈ l, (f a).isSome) :
    (l.filterMap f).map some = l.map f := by
  induction l with
  | nil => rfl
  | cons a l ih =>
    obtain ⟨b, hb⟩ := Option.isSome_iff_exists.mp (h a List.mem_cons_self)
    rw [List.filterMap_cons_some hb, List.map_cons, List.map_cons, hb,
      ih fun x hx => h x (List.mem_cons_of_mem a hx)]

/-- The flag a SecureBoot event sets is the one its digest is of. -/
theorem securebootDigest_of_matches {e : EventLogEntry}
    (h : Rtmr0Event.secureBoot.Matches sha384 cfv e) :
    e.digest? tpmAlgSha384 = some (securebootDigest sha384 (securebootValue e.eventData)) := by
  obtain ⟨-, -, hdata, hdigest⟩ := h
  rcases hdata with hdata | hdata
  · rw [hdigest, hdata, (Rtmr0Event.securebootData_spec 0x00).2]
    rfl
  · rw [hdigest, hdata, (Rtmr0Event.securebootData_spec 0x01).2]
    rfl

/-! ### The events by name -/

/-- The events of a supported log by name, each of its kind. -/
structure NamedEvents (sha384 : Bytes → Bytes) (cfv : Bytes) where
  tdxTable : EventLogEntry
  blob : EventLogEntry
  secureBoot : EventLogEntry
  pk : EventLogEntry
  kek : EventLogEntry
  db : EventLogEntry
  dbx : EventLogEntry
  separator : EventLogEntry
  trailing : List EventLogEntry
  tdxTable_matches : Rtmr0Event.Matches sha384 cfv .handoffTables tdxTable
  blob_matches : Rtmr0Event.Matches sha384 cfv .firmwareBlob blob
  secureBoot_matches : Rtmr0Event.Matches sha384 cfv .secureBoot secureBoot
  pk_matches : Rtmr0Event.Matches sha384 cfv (.driverConfig "PK") pk
  kek_matches : Rtmr0Event.Matches sha384 cfv (.driverConfig "KEK") kek
  db_matches : Rtmr0Event.Matches sha384 cfv (.driverConfig "db") db
  dbx_matches : Rtmr0Event.Matches sha384 cfv (.driverConfig "dbx") dbx
  separator_matches : Rtmr0Event.Matches sha384 cfv .separator separator
  trailing_matches : List.Forall₂ (Rtmr0Event.Matches sha384 cfv) (supportedSequence.drop 8) trailing

namespace NamedEvents

/-- The events in log order. -/
def events (n : NamedEvents sha384 cfv) : List EventLogEntry :=
  n.tdxTable :: n.blob :: n.secureBoot :: n.pk :: n.kek :: n.db :: n.dbx :: n.separator :: n.trailing

/-- Those a baseline stores: all but the firmware blob, the SecureBoot variable and the separator. -/
def stored (n : NamedEvents sha384 cfv) : List EventLogEntry :=
  n.tdxTable :: n.pk :: n.kek :: n.db :: n.dbx :: n.trailing

variable (n : NamedEvents sha384 cfv)

/-- The kinds behind the separator are stored under labels that are not fixed. -/
theorem trailing_kinds : ∀ k ∈ supportedSequence.drop 8,
    k.Regular ∧ ∃ label ∈ k.label?, label ∉ rtmr0FixedLabels := by
  unfold Rtmr0Event.Regular
  decide

/-- Three of the events are not stored. -/
theorem filter_isStored : n.events.filter (isStored 0) = n.stored := by
  have htrailing := (positional_of_matches trailing_kinds n.trailing_matches).1
  simp only [events, stored, List.filter_cons, n.tdxTable_matches.isStored_eq (by decide),
    n.blob_matches.isStored_eq (by decide), n.secureBoot_matches.isStored_eq (by decide),
    n.pk_matches.isStored_eq (by decide), n.kek_matches.isStored_eq (by decide),
    n.db_matches.isStored_eq (by decide), n.dbx_matches.isStored_eq (by decide),
    n.separator_matches.isStored_eq (by decide), Rtmr0Event.label?, Option.isSome_some,
    Option.isSome_none, Bool.false_eq_true, if_true, if_false, htrailing]

/-- The labelled events have their labels: -/
theorem label_tdxTable : labelForEvent 0 n.tdxTable = "TdxTable" :=
  n.tdxTable_matches.labelForEvent_eq rfl (by decide)

/-- the platform key, -/
theorem label_pk : labelForEvent 0 n.pk = "PK" := n.pk_matches.labelForEvent_eq rfl (by decide)

/-- the key exchange key, -/
theorem label_kek : labelForEvent 0 n.kek = "KEK" := n.kek_matches.labelForEvent_eq rfl (by decide)

/-- the signature database, -/
theorem label_db : labelForEvent 0 n.db = "db" := n.db_matches.labelForEvent_eq rfl (by decide)

/-- and the forbidden signatures. -/
theorem label_dbx : labelForEvent 0 n.dbx = "dbx" := n.dbx_matches.labelForEvent_eq rfl (by decide)

/-- Without the labelled events, those behind the separator are left. -/
theorem positionalEvents_stored : positionalEvents n.stored = n.trailing := by
  have htrailing := (positional_of_matches trailing_kinds n.trailing_matches).2
  rw [positionalEvents] at htrailing ⊢
  simp only [stored, List.filter_cons, n.label_tdxTable, n.label_pk, n.label_kek, n.label_db,
    n.label_dbx, htrailing]
  rfl

/-- Only the SecureBoot variable sets the flag. -/
theorem securebootFlagAfter_events (hreg : n.secureBoot.registerIndex = 0) :
    securebootFlagAfter false n.events = securebootValue n.secureBoot.eventData := by
  have htrailing : ∀ e ∈ n.trailing, e.registerIndex = 0 → isSecureBootVariable e = false := by
    intro e he _
    obtain ⟨k, hk, hmatch⟩ := exists_matches_of_mem n.trailing_matches he
    obtain ⟨hregular, label, hlabel, -⟩ := trailing_kinds k hk
    rw [hmatch.isSecureBootVariable_eq hregular.1]
    cases k with
    | secureBoot => cases hlabel
    | _ => rfl
  simp only [events, securebootFlagAfter, n.tdxTable_matches.isSecureBootVariable_eq (by decide),
    n.blob_matches.isSecureBootVariable_eq (by decide),
    n.secureBoot_matches.isSecureBootVariable_eq (by decide),
    n.pk_matches.isSecureBootVariable_eq (by decide),
    n.kek_matches.isSecureBootVariable_eq (by decide),
    n.db_matches.isSecureBootVariable_eq (by decide),
    n.dbx_matches.isSecureBootVariable_eq (by decide),
    n.separator_matches.isSecureBootVariable_eq (by decide), hreg,
    securebootFlagAfter_of_none htrailing]
  simp

/-- The positions are read off the events behind the separator. -/
theorem map_slotDigest_positional (enabled : Bool) :
    ((List.range rtmr0TrailingLabels.length).map Rtmr0Slot.positional).map
        (slotDigest sha384 cfv enabled n.stored)
      = n.trailing.map fun e => e.digest? tpmAlgSha384 := by
  have hlen : rtmr0TrailingLabels.length = n.trailing.length := n.trailing_matches.length_eq
  rw [hlen, List.map_map]
  simpa only [Function.comp_def, slotDigest, n.positionalEvents_stored] using
    map_range_getElem?_bind n.trailing fun e => e.digest? tpmAlgSha384

/-- **Every slot is filled by the event in its place**, for the flag of the SecureBoot variable. -/
theorem map_slotDigest :
    rtmr0Slots.map (slotDigest sha384 cfv (securebootValue n.secureBoot.eventData) n.stored)
      = n.events.map fun e => e.digest? tpmAlgSha384 := by
  have hblob : n.blob.digest? tpmAlgSha384 = some (sha384 cfv) := n.blob_matches.2.2
  have hsep : n.separator.digest? tpmAlgSha384 = some (separatorDigest sha384) :=
    n.separator_matches.2.2
  rw [rtmr0Slots, List.map_append, n.map_slotDigest_positional]
  simp [events, stored, slotDigest, n.label_tdxTable, n.label_pk, n.label_kek, n.label_db,
    n.label_dbx, hblob, hsep, securebootDigest_of_matches n.secureBoot_matches]

end NamedEvents

/-- The events of a supported log have names. -/
theorem IsSupported.exists_named (h : IsSupported sha384 cfv log) :
    ∃ n : NamedEvents sha384 cfv, log.eventsFor 0 = n.events := by
  unfold IsSupported at h
  generalize log.eventsFor 0 = events at h
  rcases h with _ | @⟨_, tdxTable, _, _, h₁, _ | @⟨_, blob, _, _, h₂, _ | @⟨_, sb, _, _, h₃,
    _ | @⟨_, pk, _, _, h₄, _ | @⟨_, kek, _, _, h₅, _ | @⟨_, db, _, _, h₆, _ | @⟨_, dbx, _, _, h₇,
    _ | @⟨_, sep, _, trailing, h₈, htrailing⟩⟩⟩⟩⟩⟩⟩⟩
  exact ⟨⟨tdxTable, blob, sb, pk, kek, db, dbx, sep, trailing, h₁, h₂, h₃, h₄, h₅, h₆, h₇, h₈,
    htrailing⟩, rfl⟩

/-- **A supported log is in slots.** -/
theorem IsSupported.inSlots (h : IsSupported sha384 cfv log) : InSlots sha384 cfv log := by
  have hdigests : ∀ e ∈ log.eventsFor 0, (e.digest? tpmAlgSha384).isSome := by
    intro e he
    obtain ⟨k, -, hmatch⟩ := exists_matches_of_mem h he
    exact hmatch.1
  obtain ⟨n, hn⟩ := h.exists_named
  have hreg : n.secureBoot.registerIndex = 0 := by
    have hmem : n.secureBoot ∈ log.eventsFor 0 := by simp [hn, NamedEvents.events]
    have hevent := (List.mem_filter.mp hmem).2
    rw [Bool.and_eq_true, beq_iff_eq] at hevent
    exact hevent.1
  rw [InSlots, logSecurebootFlag, rtmr0LogDigests, map_some_filterMap hdigests, storedEvents, hn, n.filter_isStored,
    n.securebootFlagAfter_events hreg, n.map_slotDigest]

end Supported

/-! ## Agreement -/

/-- **Replay and computation agree on the supported firmware.** If the measurable RTMR[0] events of a
log are the sixteen of the supported sequence, each with a SHA-384 digest, and those the tool computes
with the digest of what they measure, then extracting a baseline, saving and loading it and computing
RTMR[0] from it and the firmware gives the value replayed from the log. -/
theorem computeRtmr0_eq_replay (sha384 : Bytes → Bytes) {ccelData firmware cfv : Bytes}
    {log : ParsedEventLog} (machineType : String) (hlog : parseEventLog ccelData = .ok log)
    (hcfv : cfvImage firmware = .ok cfv) (hseq : IsSupported sha384 cfv log) :
    ∃ b loaded, extractFromCcel ccelData machineType = .ok b ∧ load (save b) = .ok loaded ∧
      computeRtmr0 sha384 firmware loaded
        = .ok (hex (replayEventLog sha384 log tpmAlgSha384 rtmr0)) := by
  have hextract : ∃ b, extractFromCcel ccelData machineType = .ok b := by
    rw [extractFromCcel, hlog]
    exact ⟨_, rfl⟩
  obtain ⟨b, hb⟩ := hextract
  -- what is saved is loaded unchanged
  refine ⟨b, b, hb, load_save b, ?_⟩
  obtain ⟨log', hlog', -, -, hevents⟩ := extractFromCcel_eq_ok hb
  obtain rfl : log' = log := ok_unique hlog' hlog
  refine computeRtmr0_of_inSlots sha384 hlog hb ?_ hcfv hseq.inSlots
  rw [hevents 0]
  exact hseq.check b.machineType

/-- A record with a digest that the tool computes, under the small hash. -/
def computedRecord (eventType : Nat) (eventData measured : Bytes) : Event2Record :=
  ⟨1, eventType, [(tpmAlgSha384, sampleHash 48 measured)], eventData⟩

/-- The supported sequence, with an event of RTMR[1] and an informational one in between. -/
def supportedRecords : List Event2Record :=
  fixedRecords.take 1
    ++ [computedRecord evEfiPlatformFirmwareBlob2 [] sampleCfv,
      ⟨2, evEfiAction, [(tpmAlgSha384, List.replicate sha384Size 0xEE)], []⟩,
      computedRecord evEfiVariableDriverConfig (securebootData 0x01) (securebootData 0x01),
      ⟨0, evNoAction, [], [0x01]⟩]
    ++ fixedRecords.drop 1 ++ [computedRecord evSeparator (leBytes 4 0) (leBytes 4 0)]
    ++ trailingRecords

/-- On this log both ways give one value. -/
theorem computeRtmr0_eq_replay_sample :
    ∃ b loaded, extractFromCcel (sampleCcel supportedRecords) "a3-highgpu-1g" = .ok b ∧
      load (save b) = .ok loaded ∧
      computeRtmr0 (sampleHash 48) sampleCfvFirmware loaded
        = .ok (hex (replayEventLog (sampleHash 48) (sampleCcelLog supportedRecords) tpmAlgSha384
            rtmr0)) :=
  computeRtmr0_eq_replay (sampleHash 48) "a3-highgpu-1g" (by decide +kernel)
    cfvImage_sampleCfvFirmware (by unfold IsSupported; decide +kernel)

end CvmMeasure.Tdx
