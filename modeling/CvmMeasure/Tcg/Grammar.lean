import CvmMeasure.Tcg.EventLog
import CvmMeasure.Binary.PrefixCode
import Mathlib.Data.Finset.Card
import Mathlib.Data.Fintype.Card

/-! # The grammar of an event log

What a TCG PC Client event log *is*, independent of any parser: a SpecIdEvent record followed by
`TCG_PCR_EVENT2` records, each with its byte encoding and its well-formedness, over a register
numbering `reg` of the platform.

* **`SpecIdPayload`**, **`SpecIdRecord`**, **`Event2Record`**: the records and their `encode`;
* **`TcgLog reg`**: a whole log, carrying the well-formedness of its records;
* `toEntry` and `TcgLog.entries`: the events a log stands for.

Records are prefix codes: `Event2Record.head_inj` already recovers the register, the type and the
digests from the record's head, the part before its EventSize. -/

namespace CvmMeasure.Tcg

open Binary Python

/-- A platform's register numbering: which recorded indices it has, and which register each means. -/
abbrev RegisterMap := Nat → Option Int

/-! ## The SpecIdEvent record -/

/-- One algorithm declaration: its id and its digest size, two bytes each. -/
def encodeAlgo (algo : Nat × Nat) : Bytes := leBytes 2 algo.1 ++ leBytes 2 algo.2

/-- A declaration the format allows: a usable digest size, the true one for a built-in algorithm. -/
structure ValidAlgo (algo : Nat × Nat) : Prop where
  id_lt : algo.1 < 256 ^ 2
  size_pos : 0 < algo.2
  size_le : algo.2 ≤ maxDigestSize
  known : ∀ size, algoDigestSizes.lookup algo.1 = some size → algo.2 = size

/-- The payload of a SpecIdEvent: eight bytes of platform class and versions, the algorithm table and
the vendor's bytes. -/
structure SpecIdPayload where
  platform : Bytes
  algos : List (Nat × Nat)
  vendorInfo : Bytes
  deriving DecidableEq, Repr

namespace SpecIdPayload

/-- Signature and platform fields, the algorithm count, the algorithms, the vendor's bytes. -/
def encode (p : SpecIdPayload) : Bytes :=
  specIdSignature ++ (p.platform ++ (leBytes 4 p.algos.length ++ (p.algos.flatMap encodeAlgo ++
    (leBytes 1 p.vendorInfo.length ++ p.vendorInfo))))

/-- The payload is one the format allows. -/
structure WellFormed (p : SpecIdPayload) : Prop where
  platform_length : p.platform.length = 8
  algos_ne_nil : p.algos ≠ []
  algos_valid : ∀ a ∈ p.algos, ValidAlgo a
  ids_nodup : (p.algos.map Prod.fst).Nodup
  vendorInfo_lt : p.vendorInfo.length < 256 ^ 1

end SpecIdPayload

/-- The first record of a log, a `TCG_PCClientPCREvent` around a SpecIdEvent. -/
structure SpecIdRecord where
  rawIndex : Nat
  eventType : Nat
  legacyDigest : Bytes
  payload : SpecIdPayload
  deriving DecidableEq, Repr

namespace SpecIdRecord

/-- The header fields of the record, ahead of its EventSize. -/
def header (r : SpecIdRecord) : Bytes :=
  leBytes 4 r.rawIndex ++ (leBytes 4 r.eventType ++ r.legacyDigest)

/-- Header, EventSize, payload. -/
def encode (r : SpecIdRecord) : Bytes :=
  r.header ++ (leBytes 4 r.payload.encode.length ++ r.payload.encode)

/-- The record is one the platform allows. -/
structure WellFormed (reg : RegisterMap) (r : SpecIdRecord) : Prop where
  rawIndex_lt : r.rawIndex < 256 ^ 4
  register : (reg r.rawIndex).isSome
  eventType_lt : r.eventType < 256 ^ 4
  legacyDigest_length : r.legacyDigest.length = 20
  payload : r.payload.WellFormed

/-- The event the record stands for. -/
def toEntry (reg : RegisterMap) (r : SpecIdRecord) : EventLogEntry :=
  { index := 0, registerIndex := (reg r.rawIndex).getD 0, eventType := r.eventType,
    digests := [(0x0000, r.legacyDigest)], eventData := r.payload.encode }

end SpecIdRecord

/-! ## The later records -/

/-- One digest of an event: its algorithm id and its bytes. -/
def encodeDigest (digest : Nat × Bytes) : Bytes := leBytes 2 digest.1 ++ digest.2

/-- A `TCG_PCR_EVENT2` record. -/
structure Event2Record where
  rawIndex : Nat
  eventType : Nat
  digests : List (Nat × Bytes)
  eventData : Bytes
  deriving DecidableEq, Repr

namespace Event2Record

/-- The twelve header bytes and the digests: everything ahead of the EventSize. -/
def head (r : Event2Record) : Bytes :=
  leBytes 4 r.rawIndex ++ (leBytes 4 r.eventType ++ (leBytes 4 r.digests.length ++
    r.digests.flatMap encodeDigest))

/-- Head, EventSize, event data. -/
def encode (r : Event2Record) : Bytes :=
  r.head ++ (leBytes 4 r.eventData.length ++ r.eventData)

/-- The record is one the platform allows in a log declaring the digest sizes `sizes`: it names a
register of the platform, a measured one unless the event is informational, and its digests are of
distinct known algorithms at their length. -/
structure WellFormed (reg : RegisterMap) (sizes : List (Nat × Nat)) (r : Event2Record) : Prop where
  rawIndex_lt : r.rawIndex < 256 ^ 4
  register : ∃ i, reg r.rawIndex = some i ∧ (r.eventType ≠ evNoAction → 0 ≤ i)
  eventType_lt : r.eventType < 256 ^ 4
  digest_valid : ∀ d ∈ r.digests, d.1 < 256 ^ 2 ∧ digestSizeOf sizes d.1 = some d.2.length
  ids_nodup : (r.digests.map Prod.fst).Nodup
  eventData_lt : r.eventData.length < 256 ^ 4

/-- A well-formed record names a register. -/
theorem WellFormed.register_isSome {reg : RegisterMap} {sizes : List (Nat × Nat)} {r : Event2Record}
    (h : r.WellFormed reg sizes) : (reg r.rawIndex).isSome := by
  obtain ⟨i, hreg, -⟩ := h.register
  rw [hreg, Option.isSome_some]

/-- The event the record stands for, at position `index` of its log. -/
def toEntry (reg : RegisterMap) (index : Nat) (r : Event2Record) : EventLogEntry :=
  { index, registerIndex := (reg r.rawIndex).getD 0, eventType := r.eventType,
    digests := r.digests, eventData := r.eventData }

end Event2Record

/-- The events of a record list, numbered from `index` on. -/
def entriesFrom (reg : RegisterMap) : Nat → List Event2Record → List EventLogEntry
  | _, [] => []
  | index, r :: rs => r.toEntry reg index :: entriesFrom reg (index + 1) rs

/-- **A well-formed event log** of a platform with registers `reg`. -/
structure TcgLog (reg : RegisterMap) where
  spec : SpecIdRecord
  events : List Event2Record
  spec_wf : spec.WellFormed reg
  events_wf : ∀ r ∈ events, r.WellFormed reg spec.payload.algos

namespace TcgLog

variable {reg : RegisterMap}

/-- The digest sizes the log declares. -/
def digestSizes (log : TcgLog reg) : List (Nat × Nat) := log.spec.payload.algos

/-- The bytes of the log. -/
def encode (log : TcgLog reg) : Bytes :=
  log.spec.encode ++ log.events.flatMap Event2Record.encode

/-- The events of the log. -/
def entries (log : TcgLog reg) : List EventLogEntry :=
  log.spec.toEntry reg :: entriesFrom reg 1 log.events

end TcgLog

/-! ## Distinct ids -/

/-- Appending an entry keeps the ids distinct iff its id is new. -/
theorem nodup_ids_concat {κ ν : Type} {acc : List (κ × ν)} {a : κ × ν} :
    ((acc ++ [a]).map Prod.fst).Nodup ↔ a.1 ∉ acc.map Prod.fst ∧ (acc.map Prod.fst).Nodup := by
  rw [List.map_append, List.nodup_append_comm, List.map_singleton, List.singleton_append,
    List.nodup_cons]

/-- Distinct ids of a list stay distinct on what it starts with. -/
theorem nodup_ids_of_append {κ ν : Type} {acc rest : List (κ × ν)}
    (h : ((acc ++ rest).map Prod.fst).Nodup) : (acc.map Prod.fst).Nodup := by
  rw [List.map_append] at h
  exact (List.nodup_append.mp h).1

/-! ## Lengths -/

/-- An algorithm takes four bytes, -/
@[simp] theorem length_encodeAlgo (a : Nat × Nat) : (encodeAlgo a).length = 4 := by
  simp [encodeAlgo]

/-- and several take four bytes each. -/
theorem length_flatMap_encodeAlgo (algos : List (Nat × Nat)) :
    (algos.flatMap encodeAlgo).length = 4 * algos.length := by
  induction algos with
  | nil => rfl
  | cons a algos ih => rw [List.flatMap_cons, List.length_append, ih, length_encodeAlgo,
      List.length_cons]; ring

/-- The signature is padded to sixteen bytes. -/
@[simp] theorem length_specIdSignature : specIdSignature.length = 16 := by decide

/-- The payload is as long as its parts. -/
theorem SpecIdPayload.WellFormed.length_encode {p : SpecIdPayload} (h : p.WellFormed) :
    p.encode.length = 29 + 4 * p.algos.length + p.vendorInfo.length := by
  have := h.platform_length
  simp only [encode, List.length_append, length_flatMap_encodeAlgo, leBytes_length,
    length_specIdSignature]
  omega

/-- The header of the first record takes 28 bytes. -/
theorem SpecIdRecord.WellFormed.length_header {reg : RegisterMap} {r : SpecIdRecord}
    (h : r.WellFormed reg) : r.header.length = 28 := by
  have := h.legacyDigest_length
  simp only [header, List.length_append, leBytes_length]
  omega

/-- The first record is its header, a size and the payload. -/
theorem SpecIdRecord.WellFormed.length_encode {reg : RegisterMap} {r : SpecIdRecord}
    (h : r.WellFormed reg) : r.encode.length = 32 + r.payload.encode.length := by
  have := h.length_header
  simp only [encode, List.length_append, leBytes_length]
  omega

/-- A digest has its algorithm in front. -/
@[simp] theorem length_encodeDigest (d : Nat × Bytes) : (encodeDigest d).length = 2 + d.2.length := by
  simp [encodeDigest]

namespace Event2Record

/-- The head of a record is its fixed part and its digests. -/
theorem length_head (r : Event2Record) :
    r.head.length = event2HeaderSize + (r.digests.flatMap encodeDigest).length := by
  simp only [head, List.length_append, leBytes_length, event2HeaderSize]
  omega

/-- A record is its head, a size and the event data. -/
theorem length_encode (r : Event2Record) :
    r.encode.length = r.head.length + 4 + r.eventData.length := by
  simp only [encode, List.length_append, leBytes_length]
  omega

/-- So a record is no shorter than its fixed part, -/
theorem header_le_length_head (r : Event2Record) : event2HeaderSize ≤ r.head.length := by
  rw [length_head]
  omega

/-- and never empty. -/
theorem encode_ne_nil (r : Event2Record) : r.encode ≠ [] := by
  apply List.ne_nil_of_length_pos
  rw [length_encode]
  omega

end Event2Record

/-! ## Distinct ids leave room for the counts

Ids are two bytes wide, so a list with distinct ids has at most `2 ^ 16` elements and every count
field of the format fits its four bytes. -/

/-- There are as many different algorithm ids as two bytes can hold. -/
theorem length_le_of_ids_nodup {γ : Type} {l : List (Nat × γ)} (hlt : ∀ x ∈ l, x.1 < 256 ^ 2)
    (hnd : (l.map Prod.fst).Nodup) : l.length ≤ 256 ^ 2 := by
  have hsub : (l.map Prod.fst).toFinset ⊆ Finset.range (256 ^ 2) := by
    intro i hi
    rw [List.mem_toFinset, List.mem_map] at hi
    obtain ⟨x, hx, rfl⟩ := hi
    exact Finset.mem_range.mpr (hlt x hx)
  -- as many ids as elements, and at most 2 ^ 16 of them
  have hcard := Finset.card_le_card hsub
  rwa [List.toFinset_card_of_nodup hnd, List.length_map, Finset.card_range] at hcard

/-- The number of algorithms fits its field, -/
theorem SpecIdPayload.WellFormed.count_lt {p : SpecIdPayload} (h : p.WellFormed) :
    p.algos.length < 256 ^ 4 := by
  have := length_le_of_ids_nodup (fun a ha => (h.algos_valid a ha).id_lt) h.ids_nodup
  omega

/-- the length of the payload fits its own, -/
theorem SpecIdPayload.WellFormed.length_encode_lt {p : SpecIdPayload} (h : p.WellFormed) :
    p.encode.length < 256 ^ 4 := by
  have hn := length_le_of_ids_nodup (fun a ha => (h.algos_valid a ha).id_lt) h.ids_nodup
  have hv := h.vendorInfo_lt
  rw [h.length_encode]
  omega

/-- and so does the number of digests of a record. -/
theorem Event2Record.WellFormed.count_lt {reg : RegisterMap} {sizes : List (Nat × Nat)}
    {r : Event2Record} (h : r.WellFormed reg sizes) : r.digests.length < 256 ^ 4 := by
  have := length_le_of_ids_nodup (fun d hd => (h.digest_valid d hd).1) h.ids_nodup
  omega

/-! ## Prefix codes -/

/-- No algorithm begins with the bytes of another one. -/
theorem encodeAlgo_prefixFree : PrefixFree ValidAlgo encodeAlgo := by
  refine prefixFree_of_length (n := 4) (fun a _ => length_encodeAlgo a) ?_
  rintro ⟨i, s⟩ ⟨i', s'⟩ ha hb h
  obtain ⟨hi, hs⟩ := List.append_inj h (by simp)
  have hmax : maxDigestSize < 256 ^ 2 := by decide
  exact Prod.ext (leBytes_inj ha.id_lt hb.id_lt hi)
    (leBytes_inj (ha.size_le.trans_lt hmax) (hb.size_le.trans_lt hmax) hs)

/-- A digest of a log with known sizes: its id fits and its length is the algorithm's. -/
def ValidDigest (sizes : List (Nat × Nat)) (d : Nat × Bytes) : Prop :=
  d.1 < 256 ^ 2 ∧ digestSizeOf sizes d.1 = some d.2.length

/-- Nor does a digest, under the sizes that are declared. -/
theorem encodeDigest_prefixFree (sizes : List (Nat × Nat)) :
    PrefixFree (ValidDigest sizes) encodeDigest := by
  rintro ⟨i, d⟩ ⟨i', d'⟩ s ⟨hi, hd⟩ ⟨hi', hd'⟩ h h'
  obtain ⟨hid, hdig, hdig'⟩ := prefix_append_split h h' (by simp)
  have hii : i = i' := leBytes_inj hi hi' hid
  subst hii
  have hlen : d.length = d'.length := by
    rw [hd, Option.some.injEq] at hd'
    exact hd'
  have hbytes : d = d' := (List.prefix_of_prefix_length_le hdig hdig' hlen.le).eq_of_length hlen
  rw [hbytes]

/-- **The head of a record determines its register, its type and its digests.** -/
theorem Event2Record.head_inj {reg reg' : RegisterMap} {sizes : List (Nat × Nat)}
    {r r' : Event2Record} {s : Bytes} (hr : r.WellFormed reg sizes) (hr' : r'.WellFormed reg' sizes)
    (h : r.head <+: s) (h' : r'.head <+: s) :
    r.rawIndex = r'.rawIndex ∧ r.eventType = r'.eventType ∧ r.digests = r'.digests := by
  unfold head at h h'
  obtain ⟨hraw, h, h'⟩ := prefix_append_split h h' (by simp)
  obtain ⟨htype, h, h'⟩ := prefix_append_split h h' (by simp)
  obtain ⟨hcount, h, h'⟩ := prefix_append_split h h' (by simp)
  have hlen : r.digests.length = r'.digests.length := leBytes_inj hr.count_lt hr'.count_lt hcount
  refine ⟨leBytes_inj hr.rawIndex_lt hr'.rawIndex_lt hraw,
    leBytes_inj hr.eventType_lt hr'.eventType_lt htype, ?_⟩
  exact (encodeDigest_prefixFree sizes).flatMap_eq_of_length_eq hr.digest_valid hr'.digest_valid h h'
    hlen

/-- **Well-formed records are a prefix code.** -/
theorem Event2Record.encode_prefixFree (reg : RegisterMap) (sizes : List (Nat × Nat)) :
    PrefixFree (Event2Record.WellFormed reg sizes) Event2Record.encode := by
  intro r r' s hr hr' h h'
  have hhead := (List.prefix_append r.head _).trans h
  have hhead' := (List.prefix_append r'.head _).trans h'
  obtain ⟨hraw, htype, hdigests⟩ := head_inj hr hr' hhead hhead'
  have heq : r.head = r'.head := by rw [head, head, hraw, htype, hdigests]
  -- equal heads leave the size and the data
  obtain ⟨-, h, h'⟩ := prefix_append_split h h' (by rw [heq])
  obtain ⟨hsize, h, h'⟩ := prefix_append_split h h' (by simp)
  have hlen := leBytes_inj hr.eventData_lt hr'.eventData_lt hsize
  have hdata := (List.prefix_of_prefix_length_le h h' hlen.le).eq_of_length hlen
  cases r
  cases r'
  simp_all

/-- **A payload's bytes determine it.** -/
theorem SpecIdPayload.encode_injective {p p' : SpecIdPayload} (hp : p.WellFormed)
    (hp' : p'.WellFormed) (h : p.encode = p'.encode) : p = p' := by
  have hpre : p.encode <+: p.encode := List.prefix_refl _
  have hpre' : p'.encode <+: p.encode := h ▸ List.prefix_refl _
  unfold encode at hpre hpre'
  -- field by field: the length of each is known once those in front of it agree
  obtain ⟨-, hpre, hpre'⟩ := prefix_append_split hpre hpre' rfl
  obtain ⟨hplatform, hpre, hpre'⟩ := prefix_append_split hpre hpre'
    (by rw [hp.platform_length, hp'.platform_length])
  obtain ⟨hcount, hpre, hpre'⟩ := prefix_append_split hpre hpre' (by simp)
  have hlen : p.algos.length = p'.algos.length := leBytes_inj hp.count_lt hp'.count_lt hcount
  obtain ⟨-, hrest, hrest'⟩ := prefix_append_split hpre hpre'
    (by rw [length_flatMap_encodeAlgo, length_flatMap_encodeAlgo, hlen])
  have halgos := encodeAlgo_prefixFree.flatMap_eq_of_length_eq hp.algos_valid hp'.algos_valid
    ((List.prefix_append _ _).trans hpre) ((List.prefix_append _ _).trans hpre') hlen
  obtain ⟨hvlen, hv, hv'⟩ := prefix_append_split hrest hrest' (by simp)
  have hvendor : p.vendorInfo.length = p'.vendorInfo.length :=
    leBytes_inj hp.vendorInfo_lt hp'.vendorInfo_lt hvlen
  have hbytes := (List.prefix_of_prefix_length_le hv hv' hvendor.le).eq_of_length hvendor
  cases p
  cases p'
  simp_all

/-- **Well-formed first records are a prefix code.** -/
theorem SpecIdRecord.encode_prefixFree (reg : RegisterMap) :
    PrefixFree (SpecIdRecord.WellFormed reg) SpecIdRecord.encode := by
  intro r r' s hr hr' h h'
  unfold encode at h h'
  obtain ⟨hheader, h, h'⟩ := prefix_append_split h h' (by rw [hr.length_header, hr'.length_header])
  obtain ⟨hsize, h, h'⟩ := prefix_append_split h h' (by simp)
  have hlen := leBytes_inj hr.payload.length_encode_lt hr'.payload.length_encode_lt hsize
  have hpayload := SpecIdPayload.encode_injective hr.payload hr'.payload
    ((List.prefix_of_prefix_length_le h h' hlen.le).eq_of_length hlen)
  obtain ⟨hraw, hrest⟩ := List.append_inj hheader (by simp)
  obtain ⟨htype, hdigest⟩ := List.append_inj hrest (by simp)
  have hraw' := leBytes_inj hr.rawIndex_lt hr'.rawIndex_lt hraw
  have htype' := leBytes_inj hr.eventType_lt hr'.eventType_lt htype
  cases r
  cases r'
  simp_all

/-- Two logs read from one buffer share the first record, and their event lists are comparable. -/
theorem TcgLog.comparable {reg : RegisterMap} {log log' : TcgLog reg} {s : Bytes}
    (h : log.encode <+: s) (h' : log'.encode <+: s) :
    log.spec = log'.spec ∧ (log.events <+: log'.events ∨ log'.events <+: log.events) := by
  have hspec : log.spec = log'.spec := SpecIdRecord.encode_prefixFree reg log.spec_wf log'.spec_wf
    ((List.prefix_append _ _).trans h) ((List.prefix_append _ _).trans h')
  have hwf' := log'.events_wf
  rw [← hspec] at hwf'
  unfold encode at h h'
  -- behind the shared first record stand the two record lists
  obtain ⟨-, h, h'⟩ := prefix_append_split h h' (by rw [hspec])
  exact ⟨hspec, (Event2Record.encode_prefixFree reg _).flatMap_comparable log.events_wf hwf' h h'⟩

/-! ## The digests of an event

A digest of a built-in algorithm has the built-in length, whatever the log declares. -/

/-- The declared size of an algorithm that is known is the known one. -/
theorem digestSizeOf_known {sizes : List (Nat × Nat)} (hsizes : ∀ a ∈ sizes, ValidAlgo a)
    {id size known : Nat} (hknown : algoDigestSizes.lookup id = some known)
    (h : digestSizeOf sizes id = some size) : size = known := by
  unfold digestSizeOf at h
  split at h
  · rw [hknown, Option.some.injEq] at h
    exact h.symm
  · rw [hknown, Option.some.injEq] at h
    exact h.symm
  · rename_i declared _ hlookup
    -- a declared size of a built-in algorithm is the true one
    obtain ⟨l₁, l₂, hsplit, -⟩ := List.lookup_eq_some_iff.mp hlookup
    have hvalid := hsizes (id, declared) (by rw [hsplit]; simp)
    rw [Option.some.injEq] at h
    rw [← h]
    exact hvalid.known known hknown

/-- An event of a log stands for one of its records. -/
theorem mem_entriesFrom {reg : RegisterMap} {index : Nat} {rs : List Event2Record}
    {e : EventLogEntry} (he : e ∈ entriesFrom reg index rs) : ∃ r ∈ rs, ∃ i, e = r.toEntry reg i := by
  induction rs generalizing index with
  | nil => cases he
  | cons r rs ih =>
    rcases List.mem_cons.mp he with rfl | he
    · exact ⟨r, List.mem_cons_self, index, rfl⟩
    · obtain ⟨x, hx, hex⟩ := ih he
      exact ⟨x, List.mem_cons_of_mem r hx, hex⟩

/-- The first event carries no digest of a built-in algorithm. -/
theorem SpecIdRecord.digest?_toEntry {reg : RegisterMap} (r : SpecIdRecord) {id known : Nat}
    (hknown : algoDigestSizes.lookup id = some known) : (r.toEntry reg).digest? id = none := by
  have hne : id ≠ 0x0000 := by
    rintro rfl
    cases hknown
  have hbeq : (id == 0x0000) = false := by simpa using hne
  simp only [EventLogEntry.digest?, toEntry, List.lookup_cons, hbeq, List.lookup_nil]

/-- **Every digest of a built-in algorithm has that algorithm's length.** -/
theorem TcgLog.digest_length {reg : RegisterMap} (log : TcgLog reg) {e : EventLogEntry}
    (he : e ∈ log.entries) {id known : Nat} (hknown : algoDigestSizes.lookup id = some known)
    {d : Bytes} (hd : e.digest? id = some d) : d.length = known := by
  rcases List.mem_cons.mp he with rfl | he
  · rw [SpecIdRecord.digest?_toEntry log.spec hknown] at hd
    cases hd
  · obtain ⟨r, hr, i, rfl⟩ := mem_entriesFrom he
    obtain ⟨l₁, l₂, hsplit, -⟩ := List.lookup_eq_some_iff.mp hd
    have hmem : (id, d) ∈ r.digests := by
      show (id, d) ∈ (r.toEntry reg i).digests
      rw [hsplit]
      simp
    exact digestSizeOf_known log.spec_wf.payload.algos_valid hknown
      ((log.events_wf r hr).digest_valid _ hmem).2

/-! ## Where records stop

The loop of the parser reads on unless fewer than a header's bytes are left or a terminator stands
next. On a platform without a register `0xFFFFFFFF` no record starts there either, so a log followed
by such bytes is determined by the whole. -/

/-- No record starts with these bytes. -/
def EndsRecords (bs : Bytes) : Prop :=
  bs.length < event2HeaderSize ∨ leBytes 4 logTerminator <+: bs

/-- A record names a register, a terminator does not. -/
theorem Event2Record.WellFormed.not_terminator {reg : RegisterMap} {sizes : List (Nat × Nat)}
    {r : Event2Record} {bs : Bytes} (hr : r.WellFormed reg sizes) (hterm : reg logTerminator = none)
    (h : r.encode <+: bs) : ¬ leBytes 4 logTerminator <+: bs := by
  intro ht
  have hraw : leBytes 4 r.rawIndex <+: bs := by
    rw [encode, head, List.append_assoc] at h
    exact (List.prefix_append _ _).trans h
  have hbytes := (List.prefix_of_prefix_length_le hraw ht (by simp)).eq_of_length (by simp)
  have heq := leBytes_inj hr.rawIndex_lt (by decide) hbytes
  have hsome := hr.register_isSome
  rw [heq, hterm] at hsome
  cases hsome

/-- Bytes that begin with a record do not end the records. -/
theorem Event2Record.WellFormed.not_endsRecords {reg : RegisterMap} {sizes : List (Nat × Nat)}
    {r : Event2Record} {bs : Bytes} (hr : r.WellFormed reg sizes) (hterm : reg logTerminator = none)
    (h : r.encode <+: bs) : ¬ EndsRecords bs := by
  rintro (hshort | ht)
  · have hlen := h.length_le
    have hhead := r.header_le_length_head
    have hrec := r.length_encode
    omega
  · exact hr.not_terminator hterm h ht

namespace TcgLog

variable {reg : RegisterMap}

/-- A log is its two lists of records. -/
theorem eq_of_records {log log' : TcgLog reg} (hspec : log.spec = log'.spec)
    (hevents : log.events = log'.events) : log = log' := by
  cases log
  cases log'
  cases hspec
  cases hevents
  rfl

/-- A log cannot go on where records end. -/
theorem events_eq_of_append {log log' : TcgLog reg} (hterm : reg logTerminator = none) {u u' : Bytes}
    (hu : EndsRecords u) (h : log.encode ++ u = log'.encode ++ u') (hspec : log.spec = log'.spec)
    (hpre : log.events <+: log'.events) : log.events = log'.events := by
  obtain ⟨more, hmore⟩ := hpre
  cases more with
  | nil => rwa [List.append_nil] at hmore
  | cons r more =>
    -- the longer log reads a record where the shorter one has only `u`
    exfalso
    have hr := log'.events_wf r (by rw [← hmore]; simp)
    refine hr.not_endsRecords hterm ?_ hu
    rw [encode, encode, ← hspec, ← hmore, List.flatMap_append, List.flatMap_cons,
      List.append_assoc, List.append_assoc, List.append_assoc, List.append_assoc,
      List.append_cancel_left_eq, List.append_cancel_left_eq] at h
    rw [h]
    exact List.prefix_append _ _

/-- **A log followed by bytes no record starts with is determined by the whole**, and so are these
bytes. -/
theorem append_inj {log log' : TcgLog reg} (hterm : reg logTerminator = none) {u u' : Bytes}
    (hu : EndsRecords u) (hu' : EndsRecords u') (h : log.encode ++ u = log'.encode ++ u') :
    log = log' ∧ u = u' := by
  obtain ⟨hspec, hcomp⟩ := comparable (List.prefix_append log.encode u)
    (h ▸ List.prefix_append log'.encode u')
  have hevents : log.events = log'.events := by
    rcases hcomp with hpre | hpre
    · exact events_eq_of_append hterm hu h hspec hpre
    · exact (events_eq_of_append hterm hu' h.symm hspec.symm hpre).symm
  have hlog := eq_of_records hspec hevents
  subst hlog
  exact ⟨rfl, List.append_cancel_left h⟩

end TcgLog

end CvmMeasure.Tcg
