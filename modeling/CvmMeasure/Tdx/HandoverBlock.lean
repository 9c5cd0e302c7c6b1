import CvmMeasure.Python.Outcome
import CvmMeasure.Tdx.MrtdPages

/-! # The TD handover block decodes back

`_build_tdhob` writes an EFI HOB list in separate pack calls, with declared lengths and an end address
computed from size constants. The firmware reads it with none of this: it starts at the first HOB and
goes on by the length each HOB declares.

* **`Hob`**: what a HOB says, and the bytes that say it;
* **`walkHobs`**: the firmware's reader;
* **`walkHobs_encode`**: the reader visits the HOBs written, in order;
* **`buildTdhob_decodes`**: the handover block of a memory layout is read back as that layout. -/

namespace CvmMeasure.Tdx

open Binary Python

/-! ## HOBs -/

/-- One HOB of a handover list. -/
inductive Hob where
  | handoff (version bootMode memoryTop memoryBottom freeTop freeBottom endOfHobList : Nat)
  | resource (owner : Bytes) (resourceType attributes : Nat) (gpr : GuestPhysicalRegion)
  | endOfHobList
  deriving DecidableEq, Repr

namespace Hob

/-- The length a HOB of the kind declares. -/
def size : Hob → Nat
  | handoff .. => 56
  | resource .. => 48
  | endOfHobList => 8

/-- The type number of the kind. -/
def hobType : Hob → Nat
  | handoff .. => 1
  | resource .. => 3
  | endOfHobList => 0xFFFF

/-- What stands behind the generic header. -/
def body : Hob → Bytes
  | handoff version bootMode memoryTop memoryBottom freeTop freeBottom endAddr =>
    leBytes 4 version ++ (leBytes 4 bootMode ++ (leBytes 8 memoryTop ++ (leBytes 8 memoryBottom ++
      (leBytes 8 freeTop ++ (leBytes 8 freeBottom ++ leBytes 8 endAddr)))))
  | resource owner resourceType attributes gpr =>
    owner ++ (leBytes 4 resourceType ++ (leBytes 4 attributes ++
      (leBytes 8 gpr.start ++ leBytes 8 gpr.length)))
  | endOfHobList => []

/-- The bytes of a HOB: its type, its length, four reserved bytes and its body. -/
def encode (hob : Hob) : Bytes :=
  leBytes 2 hob.hobType ++ (leBytes 2 hob.size ++ (leBytes 4 0 ++ hob.body))

/-- The fields are in range. -/
def Valid : Hob → Prop
  | handoff version bootMode memoryTop memoryBottom freeTop freeBottom endAddr =>
    version < 2 ^ 32 ∧ bootMode < 2 ^ 32 ∧ memoryTop < 2 ^ 64 ∧ memoryBottom < 2 ^ 64 ∧
      freeTop < 2 ^ 64 ∧ freeBottom < 2 ^ 64 ∧ endAddr < 2 ^ 64
  | resource owner resourceType attributes gpr =>
    owner.length = guidSize ∧ resourceType < 2 ^ 32 ∧ attributes < 2 ^ 32 ∧ gpr.start < 2 ^ 64 ∧
      gpr.length < 2 ^ 64
  | endOfHobList => True

/-- The HOB ends the list. -/
def isEnd : Hob → Bool
  | endOfHobList => true
  | _ => false

/-- A HOB is as long as it declares. -/
theorem length_encode {hob : Hob} (h : hob.Valid) : hob.encode.length = hob.size := by
  cases hob with
  | handoff => simp [encode, body, size]
  | resource owner _ _ _ => simp [encode, body, size, h.1, guidSize]
  | endOfHobList => rfl

/-- The handoff table takes 56 bytes, -/
theorem length_encode_handoff
    (version bootMode memoryTop memoryBottom freeTop freeBottom endAddr : Nat) :
    (handoff version bootMode memoryTop memoryBottom freeTop freeBottom endAddr).encode.length
      = 56 := by
  simp [encode, body]

/-- and a resource descriptor takes 48. -/
theorem length_encode_resource (resourceType attributes : Nat) (gpr : GuestPhysicalRegion) :
    (resource (List.replicate guidSize 0x00) resourceType attributes gpr).encode.length = 48 := by
  simp [encode, body, guidSize]

end Hob

/-! ## The reader -/

/-- The HOB whose header stands at `pos`, by its type and the length it declares. -/
def hobAt (d : Bytes) (pos : Nat) : Option Hob :=
  if pos + uintAt d (pos + 2) 2 ≤ d.length then
    match uintAt d pos 2, uintAt d (pos + 2) 2 with
    | 1, 56 =>
      some (.handoff (uintAt d (pos + 8) 4) (uintAt d (pos + 12) 4) (uintAt d (pos + 16) 8)
        (uintAt d (pos + 24) 8) (uintAt d (pos + 32) 8) (uintAt d (pos + 40) 8)
        (uintAt d (pos + 48) 8))
    | 3, 48 =>
      some (.resource (slice d (pos + 8) (pos + 24)) (uintAt d (pos + 24) 4) (uintAt d (pos + 28) 4)
        ⟨uintAt d (pos + 32) 8, uintAt d (pos + 40) 8⟩)
    | 0xFFFF, 8 => some .endOfHobList
    | _, _ => none
  else none

/-- The HOBs from `pos` on, each with its position, up to the one that ends the list: the next HOB
starts where the declared length of this one ends. At most `fuel` HOBs are visited. -/
def walkHobs (d : Bytes) : Nat → Nat → Option (List (Nat × Hob))
  | 0, _ => none
  | fuel + 1, pos =>
    match hobAt d pos with
    | none => none
    | some hob =>
      if hob.isEnd then some [(pos, hob)]
      else (walkHobs d fuel (pos + uintAt d (pos + 2) 2)).map ((pos, hob) :: ·)

/-- HOBs one behind the other from `pos` on, each with its position. -/
def placeHobs : Nat → List Hob → List (Nat × Hob)
  | _, [] => []
  | pos, hob :: hobs => (pos, hob) :: placeHobs (pos + hob.size) hobs

section Reader

variable {d : Bytes} {pos : Nat} {hob : Hob}

/-- The declared length, read where the HOB stands. -/
theorem uintAt_size (h : HasAt d pos hob.encode) : uintAt d (pos + 2) 2 = hob.size := by
  simp only [Hob.encode, hasAt_append, leBytes_length] at h
  refine h.2.1.uintAt_eq ?_
  cases hob <;> simp [Hob.size]

/-- **A HOB is read where its bytes stand.** -/
theorem hobAt_encode (h : HasAt d pos hob.encode) (hvalid : hob.Valid) : hobAt d pos = some hob := by
  have hfits : pos + hob.size ≤ d.length := by
    rw [← Hob.length_encode hvalid]
    refine h.end_le fun hnil => ?_
    have hlen := Hob.length_encode hvalid
    rw [hnil] at hlen
    cases hob <;> cases hlen
  have hsize := uintAt_size h
  simp only [Hob.encode, hasAt_append, leBytes_length, Nat.add_assoc, Nat.reduceAdd] at h
  obtain ⟨htype, -, -, hbody⟩ := h
  cases hob with
  | handoff version bootMode memoryTop memoryBottom freeTop freeBottom endAddr =>
    obtain ⟨h1, h2, h3, h4, h5, h6, h7⟩ := hvalid
    simp only [Hob.body, hasAt_append, leBytes_length, Nat.add_assoc, Nat.reduceAdd] at hbody
    obtain ⟨b1, b2, b3, b4, b5, b6, b7⟩ := hbody
    rw [Hob.size] at hfits hsize
    rw [hobAt, hsize, if_pos hfits, htype.uintAt_eq (by rw [Hob.hobType]; decide)]
    simp only [Hob.hobType]
    rw [b1.uintAt_eq h1, b2.uintAt_eq h2, b3.uintAt_eq h3, b4.uintAt_eq h4, b5.uintAt_eq h5,
      b6.uintAt_eq h6, b7.uintAt_eq h7]
  | resource owner resourceType attributes gpr =>
    obtain ⟨h1, h2, h3, h4, h5⟩ := hvalid
    simp only [Hob.body, hasAt_append, leBytes_length, Nat.add_assoc, h1, guidSize,
      Nat.reduceAdd] at hbody
    obtain ⟨b1, b2, b3, b4, b5⟩ := hbody
    rw [Hob.size] at hfits hsize
    rw [hobAt, hsize, if_pos hfits, htype.uintAt_eq (by rw [Hob.hobType]; decide)]
    simp only [Hob.hobType]
    rw [b1.slice_eq (by rw [h1]; rfl), b2.uintAt_eq h2, b3.uintAt_eq h3, b4.uintAt_eq h4,
      b5.uintAt_eq h5]
  | endOfHobList =>
    rw [Hob.size] at hfits hsize
    rw [hobAt, hsize, if_pos hfits, htype.uintAt_eq (by rw [Hob.hobType]; decide)]
    rfl

/-- **The reader visits the HOBs written**, in order, and ends with the end-of-list HOB. -/
theorem walkHobs_encode {hobs : List Hob} {fuel : Nat}
    (h : HasAt d pos ((hobs ++ [Hob.endOfHobList]).flatMap Hob.encode))
    (hvalid : ∀ hob ∈ hobs, hob.Valid) (hend : ∀ hob ∈ hobs, hob.isEnd = false)
    (hfuel : hobs.length < fuel) :
    walkHobs d fuel pos = some (placeHobs pos (hobs ++ [.endOfHobList])) := by
  induction hobs generalizing pos fuel with
  | nil =>
    obtain ⟨fuel, rfl⟩ := Nat.exists_eq_succ_of_ne_zero (Nat.ne_zero_of_lt hfuel)
    rw [List.nil_append, List.flatMap_singleton] at h
    rw [walkHobs, hobAt_encode h trivial]
    rfl
  | cons hob hobs ih =>
    obtain ⟨fuel, rfl⟩ := Nat.exists_eq_succ_of_ne_zero (Nat.ne_zero_of_lt hfuel)
    rw [List.cons_append, List.flatMap_cons, hasAt_append] at h
    obtain ⟨hhob, hrest⟩ := h
    have hv := hvalid hob List.mem_cons_self
    rw [Hob.length_encode hv] at hrest
    have htail := ih hrest (fun x hx => hvalid x (List.mem_cons_of_mem hob hx))
      (fun x hx => hend x (List.mem_cons_of_mem hob hx)) (Nat.lt_of_succ_lt_succ hfuel)
    simp only [walkHobs, hobAt_encode hhob hv, hend hob List.mem_cons_self, Bool.false_eq_true,
      if_false, uintAt_size hhob, htail]
    rfl

end Reader

/-! ## The block of a memory layout -/

/-- The attributes of a present, initialized and tested resource, with the early-accept bit or
without. -/
def resourceAttributes (earlyAccept : Bool) : Nat :=
  0b111 + if earlyAccept then 2 ^ 28 else 0

/-- Memory the firmware owns: system memory, never to be accepted early. -/
def privateHob (gpr : GuestPhysicalRegion) : Hob :=
  .resource (List.replicate guidSize 0x00) 0 (resourceAttributes false) gpr

/-- Memory left unaccepted: below 4 GiB it is accepted early in any case. -/
def unacceptedHob (disableEarlyAccept : Bool) (gpr : GuestPhysicalRegion) : Hob :=
  .resource (List.replicate guidSize 0x00) 7
    (resourceAttributes (!disableEarlyAccept || gpr.start + gpr.length ≤ 2 ^ 32)) gpr

/-- The HOBs of a memory layout whose list ends at `endAddr`. -/
def layoutHobs (endAddr : Nat) (privates unaccepted : List GuestPhysicalRegion)
    (disableEarlyAccept : Bool) : List Hob :=
  .handoff 9 0 0 0 0 0 endAddr :: (privates.map privateHob ++
    unaccepted.map (unacceptedHob disableEarlyAccept))

/-- A number of eight bytes is packed. -/
theorem packQ_of_lt {n : Nat} (h : n < 2 ^ 64) : packQ n = .ok (leBytes 8 n) := by
  rw [packQ, refuseIf, if_neg (Nat.not_le_of_lt h)]
  rfl

/-- What is packed of the handoff table is its encoding, -/
theorem handoffInfo_eq {endAddr : Nat} (h : endAddr < 2 ^ 64) :
    handoffInfo endAddr = .ok (Hob.handoff 9 0 0 0 0 0 endAddr).encode := by
  rw [handoffInfo, packQ_of_lt h, ok_bind]
  simp only [Hob.encode, Hob.body, hobHeader, List.append_assoc]
  rfl

/-- and so it is for a resource descriptor. -/
theorem resourceDescriptor_eq (resourceType attributes : Nat) {gpr : GuestPhysicalRegion}
    (hstart : gpr.start < 2 ^ 64) (hlength : gpr.length < 2 ^ 64) :
    resourceDescriptor resourceType attributes gpr =
      .ok (Hob.resource (List.replicate guidSize 0x00) resourceType attributes gpr).encode := by
  rw [resourceDescriptor, packQ_of_lt hstart, packQ_of_lt hlength, ok_bind, ok_bind]
  simp only [Hob.encode, Hob.body, hobHeader, List.append_assoc]
  rfl

/-- The descriptors of regions in range are written one behind the other. -/
theorem resourceDescriptors_eq (resourceType : Nat) (attributes : GuestPhysicalRegion → Nat)
    {gprs : List GuestPhysicalRegion} (h : ∀ g ∈ gprs, g.start < 2 ^ 64 ∧ g.length < 2 ^ 64) :
    resourceDescriptors resourceType attributes gprs = .ok (gprs.flatMap fun g =>
      (Hob.resource (List.replicate guidSize 0x00) resourceType (attributes g) g).encode) := by
  induction gprs with
  | nil => rfl
  | cons g gprs ih =>
    obtain ⟨hstart, hlength⟩ := h g List.mem_cons_self
    rw [resourceDescriptors, resourceDescriptor_eq _ _ hstart hlength,
      ih fun x hx => h x (List.mem_cons_of_mem g hx)]
    rfl

/-- The source's attributes of an unaccepted region, bit by bit. -/
theorem unacceptedAttributes_eq (disableEarlyAccept : Bool) (g : GuestPhysicalRegion) :
    unacceptedAttributes disableEarlyAccept g =
      resourceAttributes (!disableEarlyAccept || g.start + g.length ≤ 2 ^ 32) := by
  have hgib : 4 * gib = 2 ^ 32 := rfl
  rw [unacceptedAttributes, GuestPhysicalRegion.stop, hgib]
  by_cases hstop : g.start + g.length ≤ 2 ^ 32
  · rw [if_pos (Or.inl hstop), decide_eq_true hstop, Bool.or_true]
    rfl
  · cases disableEarlyAccept with
    | false =>
      rw [if_pos (Or.inr rfl), Bool.not_false, Bool.true_or]
      rfl
    | true =>
      rw [if_neg fun h => h.elim hstop Bool.noConfusion, decide_eq_false hstop]
      rfl

/-- The fields of a layout's HOBs are in range. -/
theorem layoutHobs_valid {endAddr : Nat} {privates unaccepted : List GuestPhysicalRegion}
    (hend : endAddr < 2 ^ 64)
    (hregions : ∀ g ∈ privates ++ unaccepted, g.start < 2 ^ 64 ∧ g.length < 2 ^ 64)
    (disableEarlyAccept : Bool) :
    ∀ hob ∈ layoutHobs endAddr privates unaccepted disableEarlyAccept, hob.Valid := by
  have hattrs : ∀ early, resourceAttributes early < 2 ^ 32 := by decide
  intro hob hhob
  rcases List.mem_cons.mp hhob with rfl | hhob
  · exact ⟨by decide, by decide, by decide, by decide, by decide, by decide, hend⟩
  · rcases List.mem_append.mp hhob with hhob | hhob
    · obtain ⟨g, hg, rfl⟩ := List.mem_map.mp hhob
      exact ⟨List.length_replicate, by decide, hattrs _, hregions g (List.mem_append_left _ hg)⟩
    · obtain ⟨g, hg, rfl⟩ := List.mem_map.mp hhob
      exact ⟨List.length_replicate, by decide, hattrs _, hregions g (List.mem_append_right _ hg)⟩

/-- None of the blocks is the end of the list. -/
theorem layoutHobs_isEnd {endAddr : Nat} {privates unaccepted : List GuestPhysicalRegion}
    {disableEarlyAccept : Bool} :
    ∀ hob ∈ layoutHobs endAddr privates unaccepted disableEarlyAccept, hob.isEnd = false := by
  intro hob hhob
  rcases List.mem_cons.mp hhob with rfl | hhob
  · rfl
  · rcases List.mem_append.mp hhob with hhob | hhob
    · obtain ⟨g, -, rfl⟩ := List.mem_map.mp hhob
      rfl
    · obtain ⟨g, -, rfl⟩ := List.mem_map.mp hhob
      rfl

/-- Descriptors written one behind the other take 48 bytes each. -/
theorem length_descriptors (f : GuestPhysicalRegion → Hob) (gprs : List GuestPhysicalRegion)
    (h : ∀ g ∈ gprs, (f g).encode.length = 48) :
    ((gprs.map f).flatMap Hob.encode).length = 48 * gprs.length := by
  induction gprs with
  | nil => rfl
  | cons g gprs ih =>
    rw [List.map_cons, List.flatMap_cons, List.length_append, h g List.mem_cons_self,
      ih fun x hx => h x (List.mem_cons_of_mem g hx), List.length_cons]
    omega

/-- The HOBs of a layout take 56 bytes and 48 for each region. -/
theorem length_layoutHobs (endAddr : Nat) (privates unaccepted : List GuestPhysicalRegion)
    (disableEarlyAccept : Bool) :
    ((layoutHobs endAddr privates unaccepted disableEarlyAccept).flatMap Hob.encode).length
      = 56 + 48 * (privates.length + unaccepted.length) := by
  have hprivate := length_descriptors privateHob privates fun g _ =>
    Hob.length_encode_resource _ _ g
  have hunaccepted := length_descriptors (unacceptedHob disableEarlyAccept) unaccepted fun g _ =>
    Hob.length_encode_resource _ _ g
  rw [layoutHobs, List.flatMap_cons, List.flatMap_append, List.length_append, List.length_append,
    Hob.length_encode_handoff, hprivate, hunaccepted]
  omega

/-- The end-of-list HOB takes eight more. -/
theorem length_layoutHobs_end (endAddr : Nat) (privates unaccepted : List GuestPhysicalRegion)
    (disableEarlyAccept : Bool) :
    ((layoutHobs endAddr privates unaccepted disableEarlyAccept
        ++ [Hob.endOfHobList]).flatMap Hob.encode).length
      = 56 + 48 * (privates.length + unaccepted.length) + 8 := by
  rw [List.flatMap_append, List.length_append, length_layoutHobs]
  rfl

section Placing

/-- Placing the blocks keeps them. -/
theorem map_snd_placeHobs (pos : Nat) (hobs : List Hob) : (placeHobs pos hobs).map Prod.snd = hobs := by
  induction hobs generalizing pos with
  | nil => rfl
  | cons hob hobs ih => rw [placeHobs, List.map_cons, ih]

/-- The last HOB stands behind the bytes of the others. -/
theorem placeHobs_concat {hobs : List Hob} (h : ∀ hob ∈ hobs, hob.Valid) (pos : Nat) (last : Hob) :
    placeHobs pos (hobs ++ [last])
      = placeHobs pos hobs ++ [(pos + (hobs.flatMap Hob.encode).length, last)] := by
  induction hobs generalizing pos with
  | nil => rfl
  | cons hob hobs ih =>
    rw [List.cons_append, placeHobs, placeHobs, ih fun x hx => h x (List.mem_cons_of_mem hob hx),
      List.flatMap_cons, List.length_append, Hob.length_encode (h hob List.mem_cons_self),
      List.cons_append, Nat.add_assoc]

end Placing

section Filling

/-- `ljust` returns on widths that a byte string can have. -/
theorem outcome_ljust (data : Bytes) (width : Nat) :
    Outcome (ljust data width) (width ≤ maxBytesLength) False (¬ width ≤ maxBytesLength) := by
  constructor
  case of_returns => exact fun h => ⟨_, ljust_of_le h data⟩
  case of_overflows => exact False.elim
  case of_exceeds => exact fun h => ljust_of_lt (Nat.lt_of_not_le h) data
  case otherwise => exact fun h _ h' => absurd h h'

/-- What `_build_tdhob` does with a block: it refuses one that overflows the region, and fills up the region. -/
def fillRegion (data : Bytes) (length : Nat) : Py Bytes := do
  refuseIf (data.length > length) (.valueError s!"TDHOB overflows region: {data.length} > {length}")
  ljust data length

/-- A region is filled if the block fits it and a byte string can be that long. -/
theorem outcome_fillRegion (data : Bytes) (length : Nat) :
    Outcome (fillRegion data length) (data.length ≤ length ∧ length ≤ maxBytesLength) False
      (data.length ≤ length ∧ ¬ length ≤ maxBytesLength) := by
  refine (outcome_refuse_andThen fun _ => outcome_ljust data length).congr ?_ ?_ ?_
  · rw [gt_iff_lt, Nat.not_lt]
  · simp only [and_false]
  · rw [gt_iff_lt, Nat.not_lt]

/-- What a region is filled with. -/
theorem fillRegion_of_le {data : Bytes} {length : Nat} (hfits : data.length ≤ length)
    (hlong : length ≤ maxBytesLength) : fillRegion data length = .ok (zeroFill data length) := by
  rw [fillRegion, refuseIf_of_not (Nat.not_lt_of_le hfits), ok_bind, ljust_of_le hlong]

end Filling

/-- **What `_build_tdhob` writes**: the HOBs of the layout, filled up to the region. -/
theorem buildTdhob_eq {gpr : GuestPhysicalRegion} {privates unaccepted : List GuestPhysicalRegion}
    (hregions : ∀ g ∈ privates ++ unaccepted, g.start < 2 ^ 64 ∧ g.length < 2 ^ 64)
    (hend : gpr.start + 56 + 48 * (privates.length + unaccepted.length) < 2 ^ 64)
    (disableEarlyAccept : Bool) :
    let endAddr := gpr.start + (56 + 48 * (privates.length + unaccepted.length))
    let hobs := layoutHobs endAddr privates unaccepted disableEarlyAccept ++ [.endOfHobList]
    buildTdhob gpr privates unaccepted disableEarlyAccept
      = fillRegion (hobs.flatMap Hob.encode) gpr.length := by
  intro endAddr hobs
  have hdata : (Hob.handoff 9 0 0 0 0 0 endAddr).encode ++ (privates.flatMap fun g =>
        (Hob.resource (List.replicate guidSize 0x00) efiResourceSystemMemory tdhobBaseAttributes g).encode)
      ++ (unaccepted.flatMap fun g => (Hob.resource (List.replicate guidSize 0x00)
        efiResourceMemoryUnaccepted (unacceptedAttributes disableEarlyAccept g) g).encode)
      ++ endOfHobList = hobs.flatMap Hob.encode := by
    simp only [hobs, layoutHobs, List.cons_append, List.flatMap_cons, List.flatMap_append,
      List.flatMap_map, List.append_assoc, unacceptedAttributes_eq]
    rfl
  have hinfo : handoffInfo (gpr.start + (sizeofHobHandoffInfo +
      sizeofHobResourceDescriptor * (privates.length + unaccepted.length)))
        = .ok (Hob.handoff 9 0 0 0 0 0 endAddr).encode :=
    handoffInfo_eq (by simp only [sizeofHobHandoffInfo, sizeofHobResourceDescriptor]; omega)
  simp only [buildTdhob, hinfo, ok_bind,
    resourceDescriptors_eq _ _ fun g hg => hregions g (List.mem_append_left _ hg),
    resourceDescriptors_eq _ _ fun g hg => hregions g (List.mem_append_right _ hg)]
  rw [hdata]
  rfl

/-- HOBs and an end-of-list HOB, zero-filled, are read back with their positions. -/
theorem walkHobs_zeroFill {hobs : List Hob} (hvalid : ∀ hob ∈ hobs, hob.Valid)
    (hend : ∀ hob ∈ hobs, hob.isEnd = false) (length : Nat) (hfuel : hobs.length < length) :
    walkHobs (zeroFill ((hobs ++ [Hob.endOfHobList]).flatMap Hob.encode) length) length 0
      = some (placeHobs 0 hobs ++ [((hobs.flatMap Hob.encode).length, .endOfHobList)]) := by
  have hat : HasAt (zeroFill ((hobs ++ [Hob.endOfHobList]).flatMap Hob.encode) length) 0
      ((hobs ++ [Hob.endOfHobList]).flatMap Hob.encode) := List.prefix_append _ _
  rw [walkHobs_encode hat hvalid hend hfuel, placeHobs_concat hvalid, Nat.zero_add]

/-- **The TD handover block decodes back.** With all addresses in range, `_build_tdhob` raises
`ValueError` exactly when the HOBs overflow the region, and `OverflowError` exactly when they do not but the
region is longer than any `bytes` object. Otherwise it returns bytes of the region's length, in which the
firmware's reader visits a handoff HOB, the descriptors of the private and of the unaccepted regions in order,
and the end-of-list HOB at the address the handoff HOB names; only zeros follow. -/
theorem buildTdhob_decodes {gpr : GuestPhysicalRegion} {privates unaccepted : List GuestPhysicalRegion}
    (hregions : ∀ g ∈ privates ++ unaccepted, g.start < 2 ^ 64 ∧ g.length < 2 ^ 64)
    (hend : gpr.start + 56 + 48 * (privates.length + unaccepted.length) < 2 ^ 64)
    (disableEarlyAccept : Bool) :
    let n := privates.length + unaccepted.length
    ((∃ message, buildTdhob gpr privates unaccepted disableEarlyAccept = .error (.valueError message)) ↔
      64 + 48 * n > gpr.length) ∧
    ((∃ message, buildTdhob gpr privates unaccepted disableEarlyAccept = .error (.overflowError message)) ↔
      64 + 48 * n ≤ gpr.length ∧ maxBytesLength < gpr.length) ∧
    (64 + 48 * n ≤ gpr.length → gpr.length ≤ maxBytesLength → ∃ data descriptors,
      buildTdhob gpr privates unaccepted disableEarlyAccept = .ok data ∧ data.length = gpr.length ∧
      walkHobs data data.length 0 = some ((0, .handoff 9 0 0 0 0 0 (gpr.start + (56 + 48 * n))) ::
        descriptors ++ [(56 + 48 * n, .endOfHobList)]) ∧
      descriptors.map Prod.snd
        = privates.map privateHob ++ unaccepted.map (unacceptedHob disableEarlyAccept) ∧
      data.drop (56 + 48 * n + 8) = List.replicate (gpr.length - (56 + 48 * n + 8)) 0x00) := by
  intro n
  have hbuild := buildTdhob_eq hregions hend disableEarlyAccept
  dsimp only at hbuild
  have hlength := length_layoutHobs_end (gpr.start + (56 + 48 * n)) privates unaccepted
    disableEarlyAccept
  have houtcome := outcome_fillRegion ((layoutHobs (gpr.start + (56 + 48 * n)) privates unaccepted
    disableEarlyAccept ++ [Hob.endOfHobList]).flatMap Hob.encode) gpr.length
  rw [hlength, ← hbuild] at houtcome
  refine ⟨houtcome.iff_refused.trans ?_, houtcome.iff_exceeds.trans ?_, fun hfits hlong => ?_⟩
  · rw [not_false_iff, true_and]
    omega
  · omega
  · rw [fillRegion_of_le (by rw [hlength]; omega) hlong] at hbuild
    have hvalid : ∀ hob ∈ layoutHobs (gpr.start + (56 + 48 * n)) privates unaccepted
        disableEarlyAccept, hob.Valid :=
      layoutHobs_valid (by omega) hregions disableEarlyAccept
    have hlayout := length_layoutHobs (gpr.start + (56 + 48 * n)) privates unaccepted
      disableEarlyAccept
    have hcount : (layoutHobs (gpr.start + (56 + 48 * n)) privates unaccepted
        disableEarlyAccept).length = n + 1 := by
      simp [layoutHobs, n]
    have hwalk := walkHobs_zeroFill hvalid layoutHobs_isEnd gpr.length (by omega)
    rw [hlayout] at hwalk
    have hfill : (zeroFill ((layoutHobs (gpr.start + (56 + 48 * n)) privates unaccepted
        disableEarlyAccept ++ [Hob.endOfHobList]).flatMap Hob.encode) gpr.length).length
          = gpr.length := by
      rw [zeroFill, List.length_append, hlength, List.length_replicate]
      omega
    refine ⟨_, placeHobs 56 (privates.map privateHob ++
      unaccepted.map (unacceptedHob disableEarlyAccept)), hbuild, hfill, ?_, map_snd_placeHobs _ _, ?_⟩
    · rw [hfill, hwalk]
      rfl
    · rw [zeroFill, ← hlength, List.drop_left]

/-- One private and two unaccepted regions, the second above 4 GiB. -/
theorem buildTdhob_decodes_sample : ∃ data descriptors,
    buildTdhob ⟨0x809000, 0x1000⟩ [⟨0x809000, 0x1000⟩] [⟨0, 0x809000⟩, ⟨0x100000000, 0x1000⟩] true
      = .ok data ∧
    data.length = 0x1000 ∧
    walkHobs data data.length 0
      = some ((0, .handoff 9 0 0 0 0 0 0x8090C8) :: descriptors ++ [(200, .endOfHobList)]) ∧
    descriptors.map Prod.snd = [
      .resource (List.replicate 16 0x00) 0 7 ⟨0x809000, 0x1000⟩,
      .resource (List.replicate 16 0x00) 7 0x10000007 ⟨0, 0x809000⟩,
      .resource (List.replicate 16 0x00) 7 7 ⟨0x100000000, 0x1000⟩] := by
  obtain ⟨data, descriptors, hbuild, hlength, hwalk, hdescriptors, -⟩ :=
    (@buildTdhob_decodes ⟨0x809000, 0x1000⟩ [⟨0x809000, 0x1000⟩]
      [⟨0, 0x809000⟩, ⟨0x100000000, 0x1000⟩] (by decide) (by decide) true).2.2 (by decide) (by decide)
  exact ⟨data, descriptors, hbuild, hlength, hwalk, hdescriptors⟩

/-- A region of 2^63 bytes has room for its block, all addresses are in range, and yet nothing is returned: no
`bytes` object is that long. -/
theorem buildTdhob_unfillable :
    (∀ g ∈ [⟨0x809000, 2 ^ 63⟩] ++ ([] : List GuestPhysicalRegion), g.start < 2 ^ 64 ∧ g.length < 2 ^ 64) ∧
    0x809000 + 56 + 48 * (1 + 0) < 2 ^ 64 ∧ 64 + 48 * (1 + 0) ≤ 2 ^ 63 ∧
    (¬ ∃ data, buildTdhob ⟨0x809000, 2 ^ 63⟩ [⟨0x809000, 2 ^ 63⟩] [] true = .ok data) ∧
    ∃ message, buildTdhob ⟨0x809000, 2 ^ 63⟩ [⟨0x809000, 2 ^ 63⟩] [] true
      = .error (.overflowError message) := by
  have hregions : ∀ g ∈ [⟨0x809000, 2 ^ 63⟩] ++ ([] : List GuestPhysicalRegion),
      g.start < 2 ^ 64 ∧ g.length < 2 ^ 64 := by decide
  have hend : 0x809000 + 56 + 48 * (1 + 0) < 2 ^ 64 := by decide
  have hlength := length_layoutHobs_end (0x809000 + (56 + 48 * (1 + 0))) [⟨0x809000, 2 ^ 63⟩] [] true
  obtain ⟨message, herror⟩ := (outcome_fillRegion _ (2 ^ 63)).of_exceeds
    ⟨hlength.le.trans (by decide), by decide⟩
  rw [@buildTdhob_eq ⟨0x809000, 2 ^ 63⟩ _ _ hregions hend true]
  dsimp only [List.length_cons, List.length_nil]
  rw [herror]
  refine ⟨hregions, hend, by decide, ?_, message, rfl⟩
  rintro ⟨data, hdata⟩
  cases hdata

end CvmMeasure.Tdx
