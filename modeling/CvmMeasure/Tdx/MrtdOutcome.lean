import CvmMeasure.Python.Outcome
import CvmMeasure.Tdx.GuidTable
import CvmMeasure.Tdx.HandoverBlock
import CvmMeasure.Tdx.MrtdTopology
import CvmMeasure.Tdx.RamLayout

/-! # How a run of `compute_mrtd` ends

Every statement that packs a guest address can raise `struct.error`, filling up the handover block
`OverflowError`, every check `ValueError`, and nothing else is raised. The conditions are read off the section
descriptors and the RAM topology.

* **`SectionAccepted`**, **`EndsInRange`**: the checks of `init_memory_region` on a section, and what
  its loop needs to pack all addresses;
* **`SoleTdhob`**, **`TdhobPacks`**, **`TdhobFits`**, **`Fillable`**: what the handover block needs;
* **`computeMrtd_outcome`**: `compute_mrtd` returns on inputs that `Completes`, raises `struct.error`
  on those that `Overflows`, `OverflowError` on those that `Exceeds`, and `ValueError` on all others. -/

namespace CvmMeasure.Tdx

open Binary Python

/-! ## Packing -/

/-- `struct.pack("<Q", n)` returns on numbers of eight bytes. -/
theorem outcome_packQ (n : Nat) : Outcome (packQ n) (n < 2 ^ 64) (¬ n < 2 ^ 64) False :=
  ((outcome_pack _ _).andPure fun _ => leBytes 8 n).congr Nat.not_le Nat.not_lt.symm Iff.rfl

/-- Adding a page packs its address. -/
theorem outcome_pageAdd (gpa : Nat) : Outcome (pageAdd gpa) (gpa < 2 ^ 64) (¬ gpa < 2 ^ 64) False :=
  (outcome_packQ gpa).andPure _

/-- Extending a whole chunk packs its address. -/
theorem outcome_mrExtend {gpa : Nat} {chunk : Bytes} (h : chunk.length = mrExtendChunkSize) :
    Outcome (mrExtend gpa chunk) (gpa < 2 ^ 64) (¬ gpa < 2 ^ 64) False := by
  rw [mrExtend, refuseIf_of_not (not_not.mpr h), ok_bind]
  exact (outcome_packQ gpa).andPure _

/-! ## The measurement of a region -/

section Region

variable {region : MaterialRegion} {measured : Bool}

/-- The round of the loop at byte `i` packs an address. -/
def Packs (measured : Bool) (i : Nat) : Prop := i % pageSize = 0 ∨ measured = true

/-- One round of the loop returns if the address fits, in case it packs one. -/
theorem outcome_measureStep {i : Nat}
    (h : measured = true →
      (slice region.hostBuffer i (i + mrExtendChunkSize)).length = mrExtendChunkSize) :
    Outcome (measureStep region measured i)
      (Packs measured i → region.gpr.start + i < 2 ^ 64)
      (¬ (Packs measured i → region.gpr.start + i < 2 ^ 64)) False := by
  unfold measureStep
  -- whether the round adds a page, and whether it extends a chunk
  by_cases hpage : i % pageSize = 0
  · have hpacks : (Packs measured i → region.gpr.start + i < 2 ^ 64)
        ↔ region.gpr.start + i < 2 ^ 64 :=
      forall_prop_of_true (Or.inl hpage)
    rw [hpacks]
    cases measured with
    | true =>
      simp only [hpage, if_true]
      refine ((outcome_pageAdd _).bindNot fun page _ => ?_).congr and_self_iff
        (by rw [and_self_iff]) Iff.rfl
      exact (outcome_mrExtend (h rfl)).andPure _
    | false =>
      simp only [hpage, if_true, Bool.false_eq_true, if_false]
      exact (outcome_pageAdd _).andPure _
  · cases measured with
    | true =>
      have hpacks : (Packs true i → region.gpr.start + i < 2 ^ 64)
          ↔ region.gpr.start + i < 2 ^ 64 :=
        forall_prop_of_true (Or.inr rfl)
      rw [hpacks]
      simp only [hpage, if_false, if_true]
      exact (outcome_mrExtend (h rfl)).andPure _
    | false =>
      have hpacks : ¬ Packs false i := by
        rintro (hpage' | hmeasured)
        · exact hpage hpage'
        · cases hmeasured
      simp only [hpage, if_false, Bool.false_eq_true]
      exact (outcome_pure _).congr (iff_of_true trivial fun hp => absurd hp hpacks)
        (iff_of_false id (not_not.mpr fun hp => absurd hp hpacks)) Iff.rfl

/-- The loop returns if the address fits in every round that packs one. -/
theorem outcome_measureLoop {is : List Nat}
    (h : measured = true → ∀ i ∈ is,
      (slice region.hostBuffer i (i + mrExtendChunkSize)).length = mrExtendChunkSize) :
    Outcome (measureLoop region measured is)
      (∀ i ∈ is, Packs measured i → region.gpr.start + i < 2 ^ 64)
      (¬ ∀ i ∈ is, Packs measured i → region.gpr.start + i < 2 ^ 64) False := by
  have hround : ∀ i ∈ is, Outcome (measureStep region measured i)
      (Packs measured i → region.gpr.start + i < 2 ^ 64)
      (¬ (Packs measured i → region.gpr.start + i < 2 ^ 64)) False :=
    fun i hi => outcome_measureStep fun hm => h hm i hi
  exact outcome_loop (measureLoop region measured) rfl (fun _ _ => rfl) hround

/-- The loop goes over the multiples of the chunk size. -/
theorem mem_rangeStep {stop i : Nat} (h : stop % pageSize = 0) :
    i ∈ rangeStep stop mrExtendChunkSize ↔ i < stop ∧ i % mrExtendChunkSize = 0 := by
  simp only [pageSize] at h
  simp only [rangeStep, List.mem_map, List.mem_range, mrExtendChunkSize]
  constructor
  · rintro ⟨k, hk, rfl⟩
    omega
  · rintro ⟨hlt, hmod⟩
    exact ⟨i / 256, by omega, by omega⟩

/-- All addresses of an aligned range fit if its end does: the last page is packed. -/
theorem forall_rangeStep_lt {start length : Nat} (hstart : start % pageSize = 0)
    (hlength : length % pageSize = 0) (hlt : start < 2 ^ 64) (measured : Bool) :
    (∀ i ∈ rangeStep length mrExtendChunkSize, Packs measured i → start + i < 2 ^ 64)
      ↔ start + length ≤ 2 ^ 64 := by
  simp only [mem_rangeStep hlength]
  simp only [pageSize, mrExtendChunkSize] at hstart hlength ⊢
  constructor
  · intro h
    rcases Nat.eq_zero_or_pos length with rfl | hpos
    · omega
    · have hlast := h (length - 4096) (by omega) (Or.inl (by simp only [pageSize]; omega))
      omega
  · rintro hend i ⟨hi, -⟩ -
    omega

/-- The checks of `init_memory_region`. -/
structure RegionAccepted (region : MaterialRegion) : Prop where
  filled : measuresBytes false region = true → region.gpr.length = region.hostBuffer.length
  start_aligned : region.gpr.start % pageSize = 0
  length_aligned : region.gpr.length % pageSize = 0

/-- A region is accepted if none of the three checks refuses it. -/
theorem regionAccepted_iff :
    RegionAccepted region ↔
      ¬ (measuresBytes false region = true ∧ region.gpr.length ≠ region.hostBuffer.length) ∧
      ¬ region.gpr.start % pageSize ≠ 0 ∧ ¬ region.gpr.length % pageSize ≠ 0 := by
  rw [not_and]
  constructor
  · intro h
    exact ⟨fun hm => not_not.mpr (h.filled hm), not_not.mpr h.start_aligned,
      not_not.mpr h.length_aligned⟩
  · rintro ⟨hfilled, hstart, hlength⟩
    exact ⟨fun hm => not_not.mp (hfilled hm), not_not.mp hstart, not_not.mp hlength⟩

/-- A region is refused, measured, or left at the first address that does not fit. -/
theorem outcome_initMemoryRegion (hlt : region.gpr.start < 2 ^ 64) :
    Outcome (initMemoryRegion false region)
      (RegionAccepted region ∧ region.gpr.start + region.gpr.length ≤ 2 ^ 64)
      (RegionAccepted region ∧ ¬ region.gpr.start + region.gpr.length ≤ 2 ^ 64) False := by
  -- behind the checks every address of the range is packed
  have hloop : RegionAccepted region →
      Outcome (measureLoop region (measuresBytes false region)
        (rangeStep region.gpr.length mrExtendChunkSize))
        (region.gpr.start + region.gpr.length ≤ 2 ^ 64)
        (¬ region.gpr.start + region.gpr.length ≤ 2 ^ 64) False := by
    rintro ⟨hfilled, hstart, hlength⟩
    have hchunk : measuresBytes false region = true →
        ∀ i ∈ rangeStep region.gpr.length mrExtendChunkSize,
          (slice region.hostBuffer i (i + mrExtendChunkSize)).length = mrExtendChunkSize := by
      intro hm i hi
      obtain ⟨hi, hmod⟩ := (mem_rangeStep hlength).mp hi
      have hfull := hfilled hm
      simp only [pageSize, mrExtendChunkSize] at hlength hmod ⊢
      rw [length_slice_of_le (by omega)]
      omega
    have hloop := outcome_measureLoop hchunk
    rwa [forall_rangeStep_lt hstart hlength hlt] at hloop
  rw [regionAccepted_iff] at hloop ⊢
  rw [and_assoc, and_assoc, and_assoc, and_assoc]
  refine Outcome.congr (outcome_refuse_andThen fun hfilled => outcome_refuse_andThen fun hstart =>
    outcome_refuse_andThen fun hlength => hloop ⟨hfilled, hstart, hlength⟩) Iff.rfl Iff.rfl ?_
  simp only [and_false]

end Region

/-! ## The measurement of the sections -/

/-- The length of a section's content: what the image has of its file bytes, all of the handover
block's range, or nothing. -/
def contentLength (firmware : Bytes) (sec : TdxMetadataSection) : Nat :=
  if sec.sectionType = tdxSectionBfv ∨ sec.sectionType = tdxSectionCfv then
    min sec.dataSize (firmware.length - sec.dataOffset)
  else if sec.sectionType = tdxSectionTdhob then sec.memorySize
  else 0

/-- The section passes the checks of `init_memory_region`. -/
structure SectionAccepted (firmware : Bytes) (sec : TdxMetadataSection) : Prop where
  filled : hasExtendMr sec = true → sec.memorySize = contentLength firmware sec
  base_aligned : sec.memoryBase % pageSize = 0
  size_aligned : sec.memorySize % pageSize = 0

/-- The section's range ends within 64 bits. -/
def EndsInRange (sec : TdxMetadataSection) : Prop := sec.memoryBase + sec.memorySize ≤ 2 ^ 64

/-- The measurement comes to a section that passes the checks and leaves 64 bits. -/
def Overruns (firmware : Bytes) (secs : List TdxMetadataSection) : Prop :=
  ∃ pre sec post, secs = pre ++ sec :: post ∧
    (∀ s ∈ pre, SectionAccepted firmware s ∧ EndsInRange s) ∧
    SectionAccepted firmware sec ∧ ¬ EndsInRange sec

/-- Either the first section ends too far up, or it passes and a later one does. -/
theorem overruns_cons {firmware : Bytes} {sec : TdxMetadataSection} {secs : List TdxMetadataSection} :
    Overruns firmware (sec :: secs) ↔
      (SectionAccepted firmware sec ∧ ¬ EndsInRange sec) ∨
      (SectionAccepted firmware sec ∧ EndsInRange sec) ∧ Overruns firmware secs := by
  constructor
  · rintro ⟨pre, s, post, heq, hpre, hs⟩
    cases pre with
    | nil =>
      obtain ⟨rfl, rfl⟩ := List.cons.inj heq
      exact Or.inl hs
    | cons p pre =>
      obtain ⟨rfl, rfl⟩ := List.cons.inj heq
      obtain ⟨hp, hpre⟩ := List.forall_mem_cons.mp hpre
      exact Or.inr ⟨hp, pre, s, post, rfl, hpre, hs⟩
  · rintro (hs | ⟨hsec, pre, s, post, rfl, hpre, hs⟩)
    · exact ⟨[], sec, secs, rfl, fun x hx => absurd hx List.not_mem_nil, hs⟩
    · exact ⟨sec :: pre, s, post, rfl, List.forall_mem_cons.mpr ⟨hsec, hpre⟩, hs⟩

/-- The handover block fills its range. -/
theorem length_buildTdhob {gpr : GuestPhysicalRegion} {privates unaccepted : List GuestPhysicalRegion}
    {disableEarlyAccept : Bool} {bs : Bytes}
    (h : buildTdhob gpr privates unaccepted disableEarlyAccept = .ok bs) : bs.length = gpr.length := by
  simp only [buildTdhob, bind_eq_ok, refuseIf_eq_ok, ljust_eq_ok] at h
  obtain ⟨info, -, privateBytes, -, unacceptedBytes, -, _, hfits, -, rfl⟩ := h
  rw [zeroFill, List.length_append, List.length_replicate]
  exact Nat.add_sub_cancel' (Nat.le_of_not_lt hfits)

section Sections

variable {firmware : Bytes} {banks : List GuestPhysicalRegion} {sections : List TdxMetadataSection}

/-- The buffer of a section is as long as its content. -/
theorem RegionOf.length_hostBuffer {sec : TdxMetadataSection} {region : MaterialRegion}
    (h : RegionOf (sectionContent firmware banks sections) sec region) :
    region.hostBuffer.length = contentLength firmware sec := by
  have hcontent := h.content_eq
  unfold sectionContent at hcontent
  unfold contentLength
  split at hcontent
  · rename_i hflash
    rw [if_pos hflash, ← pure_eq_ok.mp hcontent, length_slice, Nat.add_sub_cancel_left]
  · rename_i hflash
    rw [if_neg hflash]
    split at hcontent
    · rename_i htdhob
      rw [if_pos htdhob, length_buildTdhob hcontent]
      rfl
    · rename_i htdhob
      rw [if_neg htdhob, ← pure_eq_ok.mp hcontent]
      rfl

/-- The checks on a region are those on its section. -/
theorem RegionOf.accepted_iff {sec : TdxMetadataSection} {region : MaterialRegion}
    (h : RegionOf (sectionContent firmware banks sections) sec region) :
    RegionAccepted region ↔ SectionAccepted firmware sec := by
  have hlength := h.length_hostBuffer
  have hgpr := h.gpr_eq
  have hmeasured : measuresBytes false region = hasExtendMr sec := by
    rw [measuresBytes, h.attributes_eq, Bool.or_false, hasExtendMr]
  constructor
  · rintro ⟨hfilled, hstart, hsize⟩
    rw [hmeasured, hlength, hgpr] at hfilled
    rw [hgpr] at hstart hsize
    exact ⟨hfilled, hstart, hsize⟩
  · rintro ⟨hfilled, hstart, hsize⟩
    refine ⟨?_, ?_, ?_⟩
    · rw [hmeasured, hlength, hgpr]
      exact hfilled
    · rwa [hgpr]
    · rwa [hgpr]

/-- The measurement of sections returns if all are accepted and in range, and stops at the first that
is not. -/
theorem outcome_measureRegions {secs : List TdxMetadataSection} {regions : List MaterialRegion}
    (hregions : List.Forall₂ (RegionOf (sectionContent firmware banks sections)) secs regions)
    (hlt : ∀ sec ∈ secs, sec.memoryBase < 2 ^ 64) :
    Outcome (measureRegions false regions)
      (∀ sec ∈ secs, SectionAccepted firmware sec ∧ EndsInRange sec) (Overruns firmware secs) False := by
  induction hregions with
  | nil =>
    refine (outcome_pure _).congr (iff_of_true trivial fun _ hs => absurd hs List.not_mem_nil)
      (iff_of_false id ?_) Iff.rfl
    rintro ⟨pre, sec, post, heq, -⟩
    cases pre <;> cases heq
  | @cons sec region secs regions hregion _ ih =>
    obtain ⟨hsec, hsecs⟩ := List.forall_mem_cons.mp hlt
    have hfirst : Outcome (initMemoryRegion false region)
        (SectionAccepted firmware sec ∧ EndsInRange sec)
        (SectionAccepted firmware sec ∧ ¬ EndsInRange sec) False := by
      have houtcome := outcome_initMemoryRegion (by rw [hregion.gpr_eq]; exact hsec)
      rw [hregion.accepted_iff, hregion.gpr_eq] at houtcome
      exact houtcome
    rw [List.forall_mem_cons, overruns_cons]
    refine (hfirst.bind fun bytes _ => (ih hsecs).andPure (bytes ++ ·)).congr Iff.rfl Iff.rfl ?_
    simp only [and_false, or_false]

end Sections

/-! ## The handover block -/

/-- The region's start and length have 64 bits. -/
def GuestPhysicalRegion.Fits64 (g : GuestPhysicalRegion) : Prop := g.start < 2 ^ 64 ∧ g.length < 2 ^ 64

/-- A resource descriptor packs two addresses. -/
theorem outcome_resourceDescriptor (resourceType attributes : Nat) (g : GuestPhysicalRegion) :
    Outcome (resourceDescriptor resourceType attributes g) g.Fits64 (¬ g.Fits64) False :=
  (outcome_packQ g.start).bindNot fun _ _ => (outcome_packQ g.length).andPure _

/-- Several return if all addresses fit. -/
theorem outcome_resourceDescriptors (resourceType : Nat) (attributes : GuestPhysicalRegion → Nat)
    (gprs : List GuestPhysicalRegion) :
    Outcome (resourceDescriptors resourceType attributes gprs) (∀ g ∈ gprs, g.Fits64)
      (¬ ∀ g ∈ gprs, g.Fits64) False :=
  outcome_loop (resourceDescriptors resourceType attributes) rfl (fun _ _ => rfl) fun g _ =>
    outcome_resourceDescriptor resourceType (attributes g) g

/-- The handoff table packs the end of the list. -/
theorem outcome_handoffInfo (endOfHobListAddr : Nat) :
    Outcome (handoffInfo endOfHobListAddr) (endOfHobListAddr < 2 ^ 64)
      (¬ endOfHobListAddr < 2 ^ 64) False :=
  (outcome_packQ endOfHobListAddr).andPure _

/-- It takes 56 bytes. -/
theorem length_handoffInfo {endOfHobListAddr : Nat} {bs : Bytes}
    (h : handoffInfo endOfHobListAddr = .ok bs) : bs.length = 56 := by
  have hlt := (outcome_handoffInfo endOfHobListAddr).returns_of_ok h
  rw [← ok_unique (handoffInfo_eq hlt) h]
  exact Hob.length_encode_handoff _ _ _ _ _ _ _

/-- Every resource descriptor takes 48 bytes. -/
theorem length_resourceDescriptors {resourceType : Nat} {attributes : GuestPhysicalRegion → Nat}
    {gprs : List GuestPhysicalRegion} {bs : Bytes}
    (h : resourceDescriptors resourceType attributes gprs = .ok bs) :
    bs.length = 48 * gprs.length := by
  have hfits := (outcome_resourceDescriptors resourceType attributes gprs).returns_of_ok h
  rw [← ok_unique (resourceDescriptors_eq resourceType attributes hfits) h, ← List.flatMap_map]
  exact length_descriptors _ gprs fun g _ => Hob.length_encode_resource _ _ g

/-- The end address and the regions of a handover block have 64 bits. -/
def BlockPacks (gpr : GuestPhysicalRegion) (privates unaccepted : List GuestPhysicalRegion) : Prop :=
  gpr.start + (56 + 48 * (privates.length + unaccepted.length)) < 2 ^ 64 ∧
    (∀ g ∈ privates, g.Fits64) ∧ ∀ g ∈ unaccepted, g.Fits64

/-- The handover block fits its region. -/
def BlockFits (gpr : GuestPhysicalRegion) (privates unaccepted : List GuestPhysicalRegion) : Prop :=
  64 + 48 * (privates.length + unaccepted.length) ≤ gpr.length

/-- The four parts of a handover block have the length that is checked. -/
theorem length_blockParts {endOfHobListAddr : Nat} {privates unaccepted : List GuestPhysicalRegion}
    {disableEarlyAccept : Bool} {info privateBytes unacceptedBytes : Bytes}
    (hinfo : handoffInfo endOfHobListAddr = .ok info)
    (hprivate : resourceDescriptors efiResourceSystemMemory (fun _ => tdhobBaseAttributes) privates
      = .ok privateBytes)
    (hunaccepted : resourceDescriptors efiResourceMemoryUnaccepted (unacceptedAttributes disableEarlyAccept)
      unaccepted = .ok unacceptedBytes) :
    (info ++ privateBytes ++ unacceptedBytes ++ endOfHobList).length
      = 64 + 48 * (privates.length + unaccepted.length) := by
  rw [List.length_append, List.length_append, List.length_append, length_handoffInfo hinfo,
    length_resourceDescriptors hprivate, length_resourceDescriptors hunaccepted]
  show 56 + 48 * privates.length + 48 * unaccepted.length + 8 = _
  omega

/-- `_build_tdhob` packs the end address and all its regions, refuses a block that overflows its region, and
fills up the region. -/
theorem outcome_buildTdhob (gpr : GuestPhysicalRegion)
    (privates unaccepted : List GuestPhysicalRegion) (disableEarlyAccept : Bool) :
    Outcome (buildTdhob gpr privates unaccepted disableEarlyAccept)
      (BlockPacks gpr privates unaccepted ∧ BlockFits gpr privates unaccepted ∧
        gpr.length ≤ maxBytesLength)
      (¬ BlockPacks gpr privates unaccepted)
      (BlockPacks gpr privates unaccepted ∧ BlockFits gpr privates unaccepted ∧
        ¬ gpr.length ≤ maxBytesLength) := by
  have hinfo := outcome_handoffInfo
    (gpr.start + (56 + 48 * (privates.length + unaccepted.length)))
  have hprivates := outcome_resourceDescriptors efiResourceSystemMemory
    (fun _ => tdhobBaseAttributes) privates
  have hunaccepted := outcome_resourceDescriptors efiResourceMemoryUnaccepted
    (unacceptedAttributes disableEarlyAccept) unaccepted
  have hfill : ∀ info privateBytes unacceptedBytes : Bytes,
      handoffInfo (gpr.start + (56 + 48 * (privates.length + unaccepted.length))) = .ok info →
      resourceDescriptors efiResourceSystemMemory (fun _ => tdhobBaseAttributes) privates
        = .ok privateBytes →
      resourceDescriptors efiResourceMemoryUnaccepted (unacceptedAttributes disableEarlyAccept)
        unaccepted = .ok unacceptedBytes →
      Outcome (fillRegion (info ++ privateBytes ++ unacceptedBytes ++ endOfHobList) gpr.length)
        (BlockFits gpr privates unaccepted ∧ gpr.length ≤ maxBytesLength) False
        (BlockFits gpr privates unaccepted ∧ ¬ gpr.length ≤ maxBytesLength) := by
    intro info privateBytes unacceptedBytes hinfoOk hprivateOk hunacceptedOk
    have houtcome := outcome_fillRegion (info ++ privateBytes ++ unacceptedBytes ++ endOfHobList) gpr.length
    rwa [length_blockParts hinfoOk hprivateOk hunacceptedOk] at houtcome
  refine Outcome.congr (hinfo.bind fun info hinfoOk => hprivates.bind fun privateBytes hprivateOk =>
    hunaccepted.bind fun unacceptedBytes hunacceptedOk =>
      hfill info privateBytes unacceptedBytes hinfoOk hprivateOk hunacceptedOk) ?_ ?_ ?_
  · unfold BlockPacks
    tauto
  · unfold BlockPacks
    tauto
  · unfold BlockPacks
    tauto

/-! ## The extraction -/

/-- The section has one of the four types. -/
def KnownType (sec : TdxMetadataSection) : Prop :=
  (sec.sectionType = tdxSectionBfv ∨ sec.sectionType = tdxSectionCfv ∨
    sec.sectionType = tdxSectionTempmem) ∨ sec.sectionType = tdxSectionTdhob

/-- All sections have known types, and one of them is the handover block. -/
structure SoleTdhob (sections : List TdxMetadataSection) (tdhob : TdxMetadataSection) : Prop where
  known : ∀ sec ∈ sections, KnownType sec
  sole : sections.filter (fun sec => sec.sectionType == tdxSectionTdhob) = [tdhob]

/-- There is only one such section. -/
theorem SoleTdhob.unique {sections : List TdxMetadataSection} {tdhob tdhob' : TdxMetadataSection}
    (h : SoleTdhob sections tdhob) (h' : SoleTdhob sections tdhob') : tdhob = tdhob' :=
  (List.cons.inj (h.sole.symm.trans h'.sole)).1

/-- It is one of the sections. -/
theorem SoleTdhob.mem {sections : List TdxMetadataSection} {tdhob : TdxMetadataSection}
    (h : SoleTdhob sections tdhob) : tdhob ∈ sections ∧ tdhob.sectionType = tdxSectionTdhob := by
  have hmem : tdhob ∈ sections.filter fun sec => sec.sectionType == tdxSectionTdhob := by
    rw [h.sole]
    exact List.mem_singleton_self tdhob
  obtain ⟨hmem, htype⟩ := List.mem_filter.mp hmem
  exact ⟨hmem, beq_iff_eq.mp htype⟩

/-- The handover block stands between sections of other types. -/
theorem SoleTdhob.split {sections : List TdxMetadataSection} {tdhob : TdxMetadataSection}
    (h : SoleTdhob sections tdhob) :
    ∃ pre post, sections = pre ++ tdhob :: post ∧ tdhob.sectionType = tdxSectionTdhob ∧
      (∀ sec ∈ pre, sec.sectionType ≠ tdxSectionTdhob) ∧
      ∀ sec ∈ post, sec.sectionType ≠ tdxSectionTdhob := by
  obtain ⟨pre, post, hsections, hpre, htdhob, hpost⟩ := List.filter_eq_cons_iff.mp h.sole
  refine ⟨pre, post, hsections, beq_iff_eq.mp htdhob, fun sec hsec heq => ?_, fun sec hsec heq => ?_⟩
  · exact hpre sec hsec (beq_iff_eq.mpr heq)
  · exact List.filter_eq_nil_iff.mp hpost sec hsec (beq_iff_eq.mpr heq)

section Loop

variable {firmware : Bytes} {opts : LaunchOptions}

/-- The loop goes on behind a section of known type, unless it is a second handover block. -/
theorem extractLoop_known {secs : List TdxMetadataSection} {acc : List MaterialRegion}
    {index : Option Nat} {result : List MaterialRegion × Option Nat}
    (h : extractLoop firmware opts secs acc index = .ok result) : ∀ sec ∈ secs, KnownType sec := by
  induction secs generalizing acc index with
  | nil => exact fun _ hsec => absurd hsec List.not_mem_nil
  | cons sec secs ih =>
    rw [List.forall_mem_cons]
    rw [extractLoop] at h
    split at h
    · rename_i htype
      exact ⟨Or.inl htype, ih h⟩
    · split at h
      · rename_i htdhob
        simp only [bind_eq_ok] at h
        obtain ⟨_, -, h⟩ := h
        exact ⟨Or.inr htdhob, ih h⟩
      · exact absurd h throw_ne_ok

/-- Going over the sections raises only `ValueError`. -/
theorem onlyValueError_extractLoop (secs : List TdxMetadataSection) (acc : List MaterialRegion)
    (index : Option Nat) : OnlyValueError (extractLoop firmware opts secs acc index) := by
  induction secs generalizing acc index with
  | nil => exact onlyValueError_pure _
  | cons sec secs ih =>
    rw [extractLoop]
    split
    · exact ih _ _
    · split
      · exact (onlyValueError_refuseIf _ _).andThen fun _ => ih _ _
      · exact onlyValueError_throw _

/-- Sections of the other known types leave the index as it is. -/
theorem extractLoop_of_known {secs : List TdxMetadataSection} (acc : List MaterialRegion)
    (index : Option Nat) (hknown : ∀ sec ∈ secs, KnownType sec)
    (hother : ∀ sec ∈ secs, sec.sectionType ≠ tdxSectionTdhob) :
    extractLoop firmware opts secs acc index
      = .ok (acc ++ secs.map (sectionRegion firmware opts), index) := by
  induction secs generalizing acc with
  | nil => rw [List.map_nil, List.append_nil]; rfl
  | cons sec secs ih =>
    obtain ⟨hsec, hsecs⟩ := List.forall_mem_cons.mp hknown
    obtain ⟨hne, hnes⟩ := List.forall_mem_cons.mp hother
    rw [extractLoop, if_pos (hsec.resolve_right hne), ih _ hsecs hnes, List.map_cons,
      List.append_assoc]
    rfl

/-- With one handover block the loop finds its place. -/
theorem extractLoop_tdhob {pre post : List TdxMetadataSection} {tdhob : TdxMetadataSection}
    (acc : List MaterialRegion) (hknown : ∀ sec ∈ pre ++ tdhob :: post, KnownType sec)
    (htdhob : tdhob.sectionType = tdxSectionTdhob)
    (hpre : ∀ sec ∈ pre, sec.sectionType ≠ tdxSectionTdhob)
    (hpost : ∀ sec ∈ post, sec.sectionType ≠ tdxSectionTdhob) :
    extractLoop firmware opts (pre ++ tdhob :: post) acc none
      = .ok (acc ++ (pre ++ tdhob :: post).map (sectionRegion firmware opts),
          some (acc.length + pre.length)) := by
  induction pre generalizing acc with
  | nil =>
    obtain ⟨-, hknownPost⟩ := List.forall_mem_cons.mp hknown
    have hothers : ¬ (tdhob.sectionType = tdxSectionBfv ∨ tdhob.sectionType = tdxSectionCfv ∨
        tdhob.sectionType = tdxSectionTempmem) := by
      rw [htdhob]
      decide
    rw [List.nil_append, extractLoop, if_neg hothers, if_pos htdhob,
      refuseIf_of_not (by simp), ok_bind, extractLoop_of_known _ _ hknownPost hpost, List.map_cons,
      List.append_assoc]
    rfl
  | cons sec pre ih =>
    obtain ⟨hsec, hrest⟩ := List.forall_mem_cons.mp hknown
    obtain ⟨hne, hnes⟩ := List.forall_mem_cons.mp hpre
    have hplace := place_cons acc (sectionRegion firmware opts sec) sec pre
    rw [List.cons_append, extractLoop, if_pos (hsec.resolve_right hne)]
    show extractLoop firmware opts (pre ++ tdhob :: post)
      (acc ++ [sectionRegion firmware opts sec]) none = _
    rw [ih _ hrest hnes, hplace, List.map_cons, List.append_assoc]
    rfl

end Loop

section Extraction

variable {firmware : Bytes} {metadata : TdxMetadata} {tdhob : TdxMetadataSection}

/-- The number of ranges the handover block describes. -/
def describedRanges (sections : List TdxMetadataSection) (banks : List GuestPhysicalRegion) : Nat :=
  sections.length + (unacceptedRanges sections banks).length

/-- The end-of-list address the handover block names. -/
def endOfHobListAddr (sections : List TdxMetadataSection) (banks : List GuestPhysicalRegion)
    (tdhob : TdxMetadataSection) : Nat :=
  tdhob.memoryBase + (56 + 48 * describedRanges sections banks)

/-- All addresses in the handover block have 64 bits. -/
structure TdhobPacks (sections : List TdxMetadataSection) (banks : List GuestPhysicalRegion)
    (tdhob : TdxMetadataSection) : Prop where
  end_lt : endOfHobListAddr sections banks tdhob < 2 ^ 64
  unaccepted_fits : ∀ g ∈ unacceptedRanges sections banks, g.Fits64

/-- The handover block fits its range. -/
def TdhobFits (sections : List TdxMetadataSection) (banks : List GuestPhysicalRegion)
    (tdhob : TdxMetadataSection) : Prop :=
  64 + 48 * describedRanges sections banks ≤ tdhob.memorySize

/-- A `bytes` object can fill the range of the handover block. -/
def Fillable (tdhob : TdxMetadataSection) : Prop := tdhob.memorySize ≤ maxBytesLength

/-- The 64-bit fields of a parsed section are in range. -/
theorem sections_fit64 (h : parseTdxMetadata firmware = .ok metadata) :
    ∀ sec ∈ metadata.sections, (sectionGpr sec).Fits64 := by
  have huint : ∀ offset, uintAt firmware offset 8 < 2 ^ 64 := fun offset => uintAt_lt firmware offset 8
  unfold parseTdxMetadata at h
  simp only [bind_eq_ok] at h
  obtain ⟨blocks, -, h⟩ := h
  cases hblock : blocks.get? tdxMetadataOffsetGuid with
  | none =>
    rw [hblock] at h
    exact absurd h throw_ne_ok
  | some block =>
    simp only [hblock, bind_eq_ok, pure_eq_ok] at h
    obtain ⟨_, -, _, -, _, -, _, -, _, -, _, -, rfl⟩ := h
    intro sec hsec
    obtain ⟨i, -, rfl⟩ := List.mem_map.mp hsec
    exact ⟨huint _, huint _⟩

/-- So does parsing the metadata, -/
theorem onlyValueError_parseTdxMetadata (firmware : Bytes) :
    OnlyValueError (parseTdxMetadata firmware) := by
  unfold parseTdxMetadata
  refine OnlyValueError.andThen ?_ fun blocks => ?_
  · intro e he
    rcases parseFwGuidTable_outcome firmware with ⟨-, blocks, -, hok⟩ | ⟨message, herror⟩
    · cases he.symm.trans hok
    · cases he.symm.trans herror
      trivial
  · split
    · exact onlyValueError_throw _
    · exact (onlyValueError_refuseIf _ _).andThen fun _ =>
        (onlyValueError_refuseIf _ _).andThen fun _ =>
        (onlyValueError_refuseIf _ _).andThen fun _ =>
        (onlyValueError_refuseIf _ _).andThen fun _ =>
        (onlyValueError_refuseIf _ _).andThen fun _ =>
        (onlyValueError_refuseIf _ _).andThen fun _ => onlyValueError_pure _

/-- With one handover block, the regions are those of the sections with its content built. -/
theorem extract_of_sole (banks : List GuestPhysicalRegion)
    (hmetadata : parseTdxMetadata firmware = .ok metadata)
    (hsole : SoleTdhob metadata.sections tdhob) :
    ∃ (i : Nat) (region : MaterialRegion), extractMaterialRegions firmware (launchOptions banks) =
      buildTdhob (sectionGpr tdhob) (metadata.sections.map sectionGpr)
        (unacceptedRanges metadata.sections banks) true >>= fun buffer =>
          pure ((metadata.sections.map (sectionRegion firmware (launchOptions banks))).set i
            { region with hostBuffer := buffer }) := by
  obtain ⟨pre, post, hsections, htdhob, hpre, hpost⟩ := hsole.split
  refine ⟨pre.length, sectionRegion firmware (launchOptions banks) tdhob, ?_⟩
  have hloop : extractLoop firmware (launchOptions banks) metadata.sections [] none = .ok
      (metadata.sections.map (sectionRegion firmware (launchOptions banks)), some pre.length) := by
    have hknown := hsole.known
    rw [hsections] at hknown ⊢
    rw [extractLoop_tdhob [] hknown htdhob hpre hpost, List.nil_append, List.length_nil, Nat.zero_add]
  have hat : (metadata.sections.map (sectionRegion firmware (launchOptions banks)))[pre.length]?
      = some (sectionRegion firmware (launchOptions banks) tdhob) := by
    rw [hsections, List.getElem?_map, List.getElem?_append_right (Nat.le_refl _), Nat.sub_self]
    rfl
  simp only [extractMaterialRegions, hmetadata, ok_bind, hloop, hat]
  rfl

/-- With one handover block, extraction ends as building it does. -/
theorem outcome_extract (banks : List GuestPhysicalRegion)
    (hmetadata : parseTdxMetadata firmware = .ok metadata) (hsole : SoleTdhob metadata.sections tdhob) :
    Outcome (extractMaterialRegions firmware (launchOptions banks))
      (TdhobPacks metadata.sections banks tdhob ∧ TdhobFits metadata.sections banks tdhob ∧ Fillable tdhob)
      (¬ TdhobPacks metadata.sections banks tdhob)
      (TdhobPacks metadata.sections banks tdhob ∧ TdhobFits metadata.sections banks tdhob ∧
        ¬ Fillable tdhob) := by
  obtain ⟨i, region, hextract⟩ := extract_of_sole banks hmetadata hsole
  have hprivates : ∀ g ∈ metadata.sections.map sectionGpr, g.Fits64 :=
    List.forall_mem_map.mpr (sections_fit64 hmetadata)
  have hpacks : BlockPacks (sectionGpr tdhob) (metadata.sections.map sectionGpr)
        (unacceptedRanges metadata.sections banks)
      ↔ TdhobPacks metadata.sections banks tdhob := by
    rw [BlockPacks, List.length_map]
    constructor
    · rintro ⟨hend, -, hunaccepted⟩
      exact ⟨hend, hunaccepted⟩
    · rintro ⟨hend, hunaccepted⟩
      exact ⟨hend, hprivates, hunaccepted⟩
  have hfits : BlockFits (sectionGpr tdhob) (metadata.sections.map sectionGpr)
        (unacceptedRanges metadata.sections banks)
      ↔ TdhobFits metadata.sections banks tdhob := by
    rw [BlockFits, List.length_map]
    rfl
  rw [hextract]
  exact ((outcome_buildTdhob _ _ _ _).congr (and_congr hpacks (and_congr_left' hfits)) (not_congr hpacks)
    (and_congr hpacks (and_congr_left' hfits))).andPure _

/-- Without a sole handover block, or with an unknown section, extraction is refused. -/
theorem extract_refused (hmetadata : parseTdxMetadata firmware = .ok metadata)
    (hsole : ¬ ∃ tdhob, SoleTdhob metadata.sections tdhob) (opts : LaunchOptions) :
    ∃ message, extractMaterialRegions firmware opts = .error (.valueError message) := by
  simp only [extractMaterialRegions, hmetadata, ok_bind]
  rcases (onlyValueError_extractLoop metadata.sections [] none).ok_or_valueError with
    ⟨⟨regions, index⟩, hloop⟩ | ⟨message, herror⟩
  · -- the loop returns without having met a handover block
    obtain ⟨-, hindex⟩ := extractLoop_none hloop
    cases index with
    | none =>
      rw [hloop, ok_bind]
      exact ⟨_, rfl⟩
    | some i =>
      obtain ⟨pre, tdhob, post, hsections, -, htdhob, hpre, hpost⟩ := hindex i rfl
      have hfilter : ∀ secs : List TdxMetadataSection,
          (∀ sec ∈ secs, sec.sectionType ≠ tdxSectionTdhob) →
          secs.filter (fun sec => sec.sectionType == tdxSectionTdhob) = [] := by
        intro secs hsecs
        rw [List.filter_eq_nil_iff]
        exact fun sec hsec heq => hsecs sec hsec (beq_iff_eq.mp heq)
      refine absurd ⟨tdhob, extractLoop_known hloop, ?_⟩ hsole
      rw [hsections, List.filter_append, hfilter pre hpre, List.nil_append,
        List.filter_cons, if_pos (beq_iff_eq.mpr htdhob), hfilter post hpost]
  · rw [herror, error_bind]
    exact ⟨message, rfl⟩

end Extraction

/-! ## The run -/

section Run

variable {firmware : Bytes} {ramGib maxPerNodeGib : Option Int} {numaNodes : Int}

/-- The metadata, RAM banks and handover block of an input that gets to building the block. -/
structure Launch (firmware : Bytes) (ramGib : Option Int) (numaNodes : Int)
    (maxPerNodeGib : Option Int) (metadata : TdxMetadata) (banks : List GuestPhysicalRegion)
    (tdhob : TdxMetadataSection) : Prop where
  parsed : parseTdxMetadata firmware = .ok metadata
  placed : ramBanks ramGib numaNodes maxPerNodeGib = .ok banks
  sole : SoleTdhob metadata.sections tdhob

/-- The handover block is built, and every section is accepted and in range. -/
def Completes (firmware : Bytes) (ramGib : Option Int) (numaNodes : Int)
    (maxPerNodeGib : Option Int) : Prop :=
  ∃ metadata banks tdhob, Launch firmware ramGib numaNodes maxPerNodeGib metadata banks tdhob ∧
    (TdhobPacks metadata.sections banks tdhob ∧ TdhobFits metadata.sections banks tdhob ∧ Fillable tdhob) ∧
    ∀ sec ∈ metadata.sections, SectionAccepted firmware sec ∧ EndsInRange sec

/-- An address of the handover block or, behind that, of a section that is measured leaves 64 bits. -/
def Overflows (firmware : Bytes) (ramGib : Option Int) (numaNodes : Int)
    (maxPerNodeGib : Option Int) : Prop :=
  ∃ metadata banks tdhob, Launch firmware ramGib numaNodes maxPerNodeGib metadata banks tdhob ∧
    (¬ TdhobPacks metadata.sections banks tdhob ∨
      (TdhobPacks metadata.sections banks tdhob ∧ TdhobFits metadata.sections banks tdhob ∧ Fillable tdhob) ∧
        Overruns firmware metadata.sections)

/-- The handover block packs and fits, but its range is longer than any `bytes` object. -/
def Exceeds (firmware : Bytes) (ramGib : Option Int) (numaNodes : Int)
    (maxPerNodeGib : Option Int) : Prop :=
  ∃ metadata banks tdhob, Launch firmware ramGib numaNodes maxPerNodeGib metadata banks tdhob ∧
    TdhobPacks metadata.sections banks tdhob ∧ TdhobFits metadata.sections banks tdhob ∧ ¬ Fillable tdhob

/-- and distributing the RAM. -/
theorem onlyValueError_ramBanks : OnlyValueError (ramBanks ramGib numaNodes maxPerNodeGib) := by
  cases ramGib with
  | none => exact onlyValueError_pure _
  | some ramGib => exact onlyValueError_ramRegions ramGib numaNodes maxPerNodeGib

/-- A launch is determined by its input. -/
theorem Launch.unique {metadata metadata' : TdxMetadata} {banks banks' : List GuestPhysicalRegion}
    {tdhob tdhob' : TdxMetadataSection}
    (h : Launch firmware ramGib numaNodes maxPerNodeGib metadata banks tdhob)
    (h' : Launch firmware ramGib numaNodes maxPerNodeGib metadata' banks' tdhob') :
    metadata = metadata' ∧ banks = banks' ∧ tdhob = tdhob' := by
  obtain rfl := ok_unique h.parsed h'.parsed
  exact ⟨rfl, ok_unique h.placed h'.placed, h.sole.unique h'.sole⟩

/-- What some launch of the input satisfies, its launch satisfies. -/
theorem Launch.exists_iff {metadata : TdxMetadata} {banks : List GuestPhysicalRegion}
    {tdhob : TdxMetadataSection}
    {P : TdxMetadata → List GuestPhysicalRegion → TdxMetadataSection → Prop}
    (h : Launch firmware ramGib numaNodes maxPerNodeGib metadata banks tdhob) :
    P metadata banks tdhob ↔ ∃ metadata banks tdhob,
      Launch firmware ramGib numaNodes maxPerNodeGib metadata banks tdhob ∧ P metadata banks tdhob := by
  constructor
  · intro hP
    exact ⟨metadata, banks, tdhob, h, hP⟩
  · rintro ⟨metadata', banks', tdhob', h', hP⟩
    obtain ⟨rfl, rfl, rfl⟩ := h.unique h'
    exact hP

/-- Without a launch the input is refused. -/
theorem mrtdRegions_refused (h : ¬ ∃ metadata banks tdhob,
      Launch firmware ramGib numaNodes maxPerNodeGib metadata banks tdhob) :
    ∃ message, mrtdRegions firmware ramGib numaNodes maxPerNodeGib = .error (.valueError message) := by
  unfold mrtdRegions
  rcases onlyValueError_ramBanks.ok_or_valueError with ⟨banks, hbanks⟩ | ⟨message, herror⟩
  · rw [hbanks, ok_bind]
    rcases (onlyValueError_parseTdxMetadata firmware).ok_or_valueError with
      ⟨metadata, hmetadata⟩ | ⟨message, herror⟩
    · refine extract_refused hmetadata ?_ _
      rintro ⟨tdhob, hsole⟩
      exact h ⟨metadata, banks, tdhob, hmetadata, hbanks, hsole⟩
    · exact ⟨message, by rw [extractMaterialRegions, herror, error_bind]⟩
  · exact ⟨message, by rw [herror, error_bind]⟩

/-- **How a run of `compute_mrtd` ends**: it returns if the input completes, fails to pack an address if
it overflows, fails to fill the handover block if that exceeds any `bytes` object, and is refused otherwise. -/
theorem computeMrtd_outcome (sha384 : Bytes → Bytes) (firmware : Bytes) (ramGib : Option Int)
    (numaNodes : Int) (maxPerNodeGib : Option Int) :
    Outcome (computeMrtd sha384 firmware ramGib numaNodes maxPerNodeGib)
      (Completes firmware ramGib numaNodes maxPerNodeGib)
      (Overflows firmware ramGib numaNodes maxPerNodeGib)
      (Exceeds firmware ramGib numaNodes maxPerNodeGib) := by
  unfold computeMrtd
  refine Outcome.andPure ?_ _
  by_cases hlaunch : ∃ metadata banks tdhob,
      Launch firmware ramGib numaNodes maxPerNodeGib metadata banks tdhob
  · obtain ⟨metadata, banks, tdhob, hlaunch⟩ := hlaunch
    have hregions : mrtdRegions firmware ramGib numaNodes maxPerNodeGib
        = extractMaterialRegions firmware (launchOptions banks) := by
      rw [mrtdRegions, hlaunch.placed, ok_bind]
    have hmeasure : ∀ regions, extractMaterialRegions firmware (launchOptions banks) = .ok regions →
        Outcome (measureRegions false regions)
          (∀ sec ∈ metadata.sections, SectionAccepted firmware sec ∧ EndsInRange sec)
          (Overruns firmware metadata.sections) False := by
      intro regions hextract
      obtain ⟨metadata', hmetadata', hforall⟩ := extractMaterialRegions_eq hextract
      obtain rfl := ok_unique hlaunch.parsed hmetadata'
      exact outcome_measureRegions hforall fun sec hsec => (sections_fit64 hlaunch.parsed sec hsec).1
    rw [mrtdStream, hregions]
    refine ((outcome_extract banks hlaunch.parsed hlaunch.sole).bind hmeasure).congr ?_ ?_ ?_
    · unfold Completes
      apply hlaunch.exists_iff
    · unfold Overflows
      apply hlaunch.exists_iff
    · rw [and_false, or_false]
      unfold Exceeds
      apply hlaunch.exists_iff
  · obtain ⟨message, herror⟩ := mrtdRegions_refused hlaunch
    have hrefused : mrtdStream firmware ramGib numaNodes maxPerNodeGib
        = .error (.valueError message) := by
      rw [mrtdStream, herror, error_bind]
    constructor
    case of_returns =>
      rintro ⟨metadata, banks, tdhob, h, -⟩
      exact absurd ⟨metadata, banks, tdhob, h⟩ hlaunch
    case of_overflows =>
      rintro ⟨metadata, banks, tdhob, h, -⟩
      exact absurd ⟨metadata, banks, tdhob, h⟩ hlaunch
    case of_exceeds =>
      rintro ⟨metadata, banks, tdhob, h, -⟩
      exact absurd ⟨metadata, banks, tdhob, h⟩ hlaunch
    case otherwise => exact fun _ _ _ => ⟨message, hrefused⟩

end Run

end CvmMeasure.Tdx
