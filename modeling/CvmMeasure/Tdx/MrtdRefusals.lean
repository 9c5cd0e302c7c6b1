import CvmMeasure.Tdx.MrtdOutcome

/-! # What MRTD does not refuse

Two rules that `compute_mrtd` keeps only where one of its checks happens to enforce them.

* **`AddressesFit`**: guest addresses stay within 64 bits, and a firmware that leaves them is refused.
  Nothing checks a section's end, so the rule holds exactly where no packing overflows and no section that
  leaves 64 bits stands beside a handover block that cannot be filled (`addresses_fit_iff`);
* **`NeverClamped`**: a measured flash volume lies in the image and is measured in full. The image is
  sliced without bounds, so the rule holds exactly where a section past the end is refused for another
  reason (`never_clamped_iff`);
* `addressesFit_of_sections`, `neverClamped_of_inside`: what is enough, on the section descriptors alone. -/

namespace CvmMeasure.Tdx

open Binary Python

variable {sha384 : Bytes → Bytes} {firmware : Bytes} {ramGib maxPerNodeGib : Option Int}
  {numaNodes : Int}

/-! ## Guest addresses -/

/-- Guest addresses never leave 64 bits, and `compute_mrtd` never fails to pack one. -/
structure AddressesFit (sha384 : Bytes → Bytes) (firmware : Bytes) (ramGib : Option Int)
    (numaNodes : Int) (maxPerNodeGib : Option Int) : Prop where
  /-- Every page is added and every chunk extended at an address of 64 bits. -/
  packed : ∀ value, computeMrtd sha384 firmware ramGib numaNodes maxPerNodeGib = .ok value →
    ∀ metadata, parseTdxMetadata firmware = .ok metadata → ∀ sec ∈ metadata.sections,
      ∀ i ∈ rangeStep sec.memorySize mrExtendChunkSize, sec.memoryBase + i < 2 ^ 64
  /-- So is the end-of-list address of the handover block. -/
  end_of_list : ∀ value, computeMrtd sha384 firmware ramGib numaNodes maxPerNodeGib = .ok value →
    ∀ metadata banks, parseTdxMetadata firmware = .ok metadata →
      ramBanks ramGib numaNodes maxPerNodeGib = .ok banks → ∀ sec ∈ metadata.sections,
        sec.sectionType = tdxSectionTdhob → endOfHobListAddr metadata.sections banks sec < 2 ^ 64
  /-- A firmware with a section that would leave 64 bits is refused. -/
  refused : ∀ metadata, parseTdxMetadata firmware = .ok metadata →
    (∃ sec ∈ metadata.sections, ¬ EndsInRange sec) →
      ∃ message, computeMrtd sha384 firmware ramGib numaNodes maxPerNodeGib
        = .error (.valueError message)
  /-- So is one whose handover block would end beyond them. -/
  refused_end_of_list : ∀ metadata banks, parseTdxMetadata firmware = .ok metadata →
    ramBanks ramGib numaNodes maxPerNodeGib = .ok banks →
      (∃ sec ∈ metadata.sections, sec.sectionType = tdxSectionTdhob ∧
        ¬ endOfHobListAddr metadata.sections banks sec < 2 ^ 64) →
          ∃ message, computeMrtd sha384 firmware ramGib numaNodes maxPerNodeGib
            = .error (.valueError message)
  /-- No run fails in `struct.pack`. -/
  packs : ∀ message, computeMrtd sha384 firmware ramGib numaNodes maxPerNodeGib
    ≠ .error (.structError message)

/-- The sections of a completed run are accepted and in range. -/
theorem Completes.sections (h : Completes firmware ramGib numaNodes maxPerNodeGib)
    {metadata : TdxMetadata} (hmetadata : parseTdxMetadata firmware = .ok metadata) :
    ∀ sec ∈ metadata.sections, SectionAccepted firmware sec ∧ EndsInRange sec := by
  obtain ⟨metadata', banks, tdhob, hlaunch, -, hsections⟩ := h
  obtain rfl := ok_unique hmetadata hlaunch.parsed
  exact hsections

/-- A handover block that packs is the one of the sections, so that any of them ends its list within 64 bits. -/
theorem Launch.endOfHobListAddr_lt {metadata metadata' : TdxMetadata} {banks banks' : List GuestPhysicalRegion}
    {tdhob sec : TdxMetadataSection}
    (h : Launch firmware ramGib numaNodes maxPerNodeGib metadata' banks' tdhob)
    (hpacks : TdhobPacks metadata'.sections banks' tdhob)
    (hmetadata : parseTdxMetadata firmware = .ok metadata)
    (hbanks : ramBanks ramGib numaNodes maxPerNodeGib = .ok banks) (hsec : sec ∈ metadata.sections)
    (htype : sec.sectionType = tdxSectionTdhob) :
    endOfHobListAddr metadata.sections banks sec < 2 ^ 64 := by
  obtain rfl := ok_unique hmetadata h.parsed
  obtain rfl := ok_unique hbanks h.placed
  -- the section is the only handover block
  have hmem : sec ∈ metadata.sections.filter fun sec => sec.sectionType == tdxSectionTdhob :=
    List.mem_filter.mpr ⟨hsec, beq_iff_eq.mpr htype⟩
  rw [h.sole.sole, List.mem_singleton] at hmem
  rw [hmem]
  exact hpacks.end_lt

/-- The handover block of a completed run ends within 64 bits. -/
theorem Completes.endOfHobListAddr_lt (h : Completes firmware ramGib numaNodes maxPerNodeGib)
    {metadata : TdxMetadata} (hmetadata : parseTdxMetadata firmware = .ok metadata)
    {banks : List GuestPhysicalRegion} (hbanks : ramBanks ramGib numaNodes maxPerNodeGib = .ok banks)
    {sec : TdxMetadataSection} (hsec : sec ∈ metadata.sections)
    (htype : sec.sectionType = tdxSectionTdhob) :
    endOfHobListAddr metadata.sections banks sec < 2 ^ 64 := by
  obtain ⟨metadata', banks', tdhob, hlaunch, ⟨hpacks, -⟩, -⟩ := h
  exact hlaunch.endOfHobListAddr_lt hpacks hmetadata hbanks hsec htype

/-- The firmware has a section that would leave 64 bits. -/
def LeavesRange (firmware : Bytes) : Prop :=
  ∃ metadata, parseTdxMetadata firmware = .ok metadata ∧ ∃ sec ∈ metadata.sections, ¬ EndsInRange sec

/-- A block that cannot be filled has its end address within 64 bits all the same. -/
theorem Exceeds.endOfHobListAddr_lt (h : Exceeds firmware ramGib numaNodes maxPerNodeGib)
    {metadata : TdxMetadata} (hmetadata : parseTdxMetadata firmware = .ok metadata)
    {banks : List GuestPhysicalRegion} (hbanks : ramBanks ramGib numaNodes maxPerNodeGib = .ok banks)
    {sec : TdxMetadataSection} (hsec : sec ∈ metadata.sections)
    (htype : sec.sectionType = tdxSectionTdhob) :
    endOfHobListAddr metadata.sections banks sec < 2 ^ 64 := by
  obtain ⟨metadata', banks', tdhob, hlaunch, hpacks, -⟩ := h
  exact hlaunch.endOfHobListAddr_lt hpacks hmetadata hbanks hsec htype

/-- **Guest addresses stay within 64 bits exactly on the inputs that do not overflow**, and have no section
beyond them beside a handover block that cannot be filled. -/
theorem addresses_fit_iff (sha384 : Bytes → Bytes) (firmware : Bytes) (ramGib : Option Int)
    (numaNodes : Int) (maxPerNodeGib : Option Int) :
    AddressesFit sha384 firmware ramGib numaNodes maxPerNodeGib ↔
      ¬ Overflows firmware ramGib numaNodes maxPerNodeGib ∧
        ¬ (Exceeds firmware ramGib numaNodes maxPerNodeGib ∧ LeavesRange firmware) := by
  have houtcome := computeMrtd_outcome sha384 firmware ramGib numaNodes maxPerNodeGib
  constructor
  · intro hfit
    refine ⟨fun hoverflows => ?_, ?_⟩
    · obtain ⟨message, herror⟩ := houtcome.of_overflows hoverflows
      exact hfit.packs message herror
    · rintro ⟨hexceeds, metadata, hmetadata, hleaves⟩
      obtain ⟨-, -, hnot⟩ := houtcome.iff_refused.mp (hfit.refused metadata hmetadata hleaves)
      exact hnot hexceeds
  · rintro ⟨hoverflows, hexceeds⟩
    constructor
    case packed =>
      intro value hvalue metadata hmetadata sec hsec i hi
      obtain ⟨haccepted, hend⟩ := (houtcome.returns_of_ok hvalue).sections hmetadata sec hsec
      have hlt := ((mem_rangeStep haccepted.size_aligned).mp hi).1
      exact (Nat.add_lt_add_left hlt _).trans_le hend
    case end_of_list =>
      intro value hvalue metadata banks hmetadata hbanks sec hsec htype
      exact (houtcome.returns_of_ok hvalue).endOfHobListAddr_lt hmetadata hbanks hsec htype
    case refused =>
      rintro metadata hmetadata ⟨sec, hsec, hend⟩
      refine houtcome.otherwise (fun hreturns => ?_) hoverflows fun h => ?_
      · exact hend (hreturns.sections hmetadata sec hsec).2
      · exact hexceeds ⟨h, metadata, hmetadata, sec, hsec, hend⟩
    case refused_end_of_list =>
      rintro metadata banks hmetadata hbanks ⟨sec, hsec, htype, hend⟩
      refine houtcome.otherwise (fun hreturns => ?_) hoverflows fun h => ?_
      · exact hend (hreturns.endOfHobListAddr_lt hmetadata hbanks hsec htype)
      · exact hend (h.endOfHobListAddr_lt hmetadata hbanks hsec htype)
    case packs =>
      intro message herror
      exact hoverflows (houtcome.iff_overflows.mp ⟨message, herror⟩)

/-- **What is enough, on the descriptors alone.** Without a RAM topology the addresses fit if every section ends
within 64 bits and the handover block has room for one descriptor a section. -/
theorem addressesFit_of_sections (sha384 : Bytes → Bytes) {metadata : TdxMetadata}
    (hmetadata : parseTdxMetadata firmware = .ok metadata)
    (hends : ∀ sec ∈ metadata.sections, sec.memoryBase + sec.memorySize ≤ 2 ^ 64)
    (hroom : ∀ sec ∈ metadata.sections, sec.sectionType = tdxSectionTdhob →
      64 + 48 * metadata.sections.length ≤ sec.memorySize) (numaNodes : Int) (maxPerNodeGib : Option Int) :
    AddressesFit sha384 firmware none numaNodes maxPerNodeGib := by
  refine (addresses_fit_iff sha384 firmware none numaNodes maxPerNodeGib).mpr ⟨?_, ?_⟩
  · rintro ⟨metadata', banks, tdhob, hlaunch, hoverflows⟩
    obtain rfl := ok_unique hmetadata hlaunch.parsed
    obtain rfl := pure_eq_ok.mp hlaunch.placed
    obtain ⟨hmem, htype⟩ := hlaunch.sole.mem
    rcases hoverflows with hpacks | ⟨-, pre, sec, post, hsections, -, -, hbeyond⟩
    · refine hpacks ⟨?_, fun g hg => absurd hg List.not_mem_nil⟩
      have hend := hends tdhob hmem
      have hfits := hroom tdhob hmem htype
      show tdhob.memoryBase + (56 + 48 * (metadata.sections.length + 0)) < 2 ^ 64
      omega
    · exact hbeyond (hends sec (by rw [hsections]; exact List.mem_append_right pre List.mem_cons_self))
  · rintro ⟨-, metadata', hmetadata', sec, hsec, hbeyond⟩
    obtain rfl := ok_unique hmetadata hmetadata'
    exact hbeyond (hends sec hsec)

/-- A handover block, and a page of memory below and one beyond the end of 64 bits. -/
def overflowingSections : List TdxMetadataSection :=
  [⟨0, 0, 0x809000, 0x1000, tdxSectionTdhob, 0⟩,
    ⟨0, 0, 2 ^ 64 - 0x1000, 0x2000, tdxSectionTempmem, 0⟩]

/-- The second page is added at address 2^64, which is not refused but fails to pack. -/
theorem addresses_fit_overflowing :
    ¬ AddressesFit id (sampleFirmware overflowingSections) none 1 none := by
  intro h
  have hlaunch : Launch (sampleFirmware overflowingSections) none 1 none ⟨1, overflowingSections⟩ []
      ⟨0, 0, 0x809000, 0x1000, tdxSectionTdhob, 0⟩ := by
    refine ⟨by decide +kernel, rfl, ?_, rfl⟩
    simp [overflowingSections, KnownType]
  have hoverruns : Overruns (sampleFirmware overflowingSections) overflowingSections := by
    refine ⟨[_], _, [], rfl, ?_, ⟨fun hm => absurd hm (by decide), rfl, rfl⟩, by simp [EndsInRange]⟩
    rw [List.forall_mem_singleton]
    exact ⟨⟨fun hm => absurd hm (by decide), rfl, rfl⟩, by simp [EndsInRange]⟩
  have hpacks : TdhobPacks overflowingSections [] ⟨0, 0, 0x809000, 0x1000, tdxSectionTdhob, 0⟩ :=
    ⟨by decide, fun g hg => absurd hg List.not_mem_nil⟩
  obtain ⟨message, herror⟩ := (computeMrtd_outcome id _ _ _ _).of_overflows
    ⟨_, _, _, hlaunch, Or.inr ⟨⟨hpacks, by unfold TdhobFits; decide, by unfold Fillable; decide⟩, hoverruns⟩⟩
  exact h.packs message herror

/-! ## Clamped sections -/

/-- A flash volume whose content is measured. -/
def IsMeasuredFlash (sec : TdxMetadataSection) : Prop :=
  (sec.sectionType = tdxSectionBfv ∨ sec.sectionType = tdxSectionCfv) ∧ hasExtendMr sec = true

/-- The region measures the bytes its descriptor names, all of them in the image. -/
structure MeasuresNamedBytes (firmware : Bytes) (sections : List TdxMetadataSection)
    (sec : TdxMetadataSection) (region : MaterialRegion) : Prop where
  inside : sec.dataOffset + sec.dataSize ≤ firmware.length
  size_eq : sec.dataSize = sec.memorySize
  hasAt : HasAt firmware sec.dataOffset region.hostBuffer
  length_eq : region.hostBuffer.length = sec.dataSize
  /-- The only configuration volume is measured as `cfv_image` returns it. -/
  cfv : sections.filter (fun s => s.sectionType == tdxSectionCfv) = [sec] → sec.memorySize ≠ 0 →
    cfvImage firmware = .ok region.hostBuffer

/-- The firmware places a measured flash volume past the end of the image. -/
def PastEnd (firmware : Bytes) : Prop :=
  ∃ metadata, parseTdxMetadata firmware = .ok metadata ∧ ∃ sec ∈ metadata.sections,
    IsMeasuredFlash sec ∧ ¬ sec.dataOffset + sec.dataSize ≤ firmware.length

/-- MRTD never measures a clamped section, and refuses a firmware with a section past the end. -/
structure NeverClamped (sha384 : Bytes → Bytes) (firmware : Bytes) (ramGib : Option Int)
    (numaNodes : Int) (maxPerNodeGib : Option Int) : Prop where
  exact : ∀ value, computeMrtd sha384 firmware ramGib numaNodes maxPerNodeGib = .ok value →
    ∀ regions, mrtdRegions firmware ramGib numaNodes maxPerNodeGib = .ok regions →
      ∀ metadata, parseTdxMetadata firmware = .ok metadata →
        List.Forall₂ (fun sec region =>
          IsMeasuredFlash sec → MeasuresNamedBytes firmware metadata.sections sec region)
          metadata.sections regions
  refused : PastEnd firmware →
    ∃ message, computeMrtd sha384 firmware ramGib numaNodes maxPerNodeGib
      = .error (.valueError message)

/-- The only configuration volume, if it lies in the image and fills its range. -/
theorem cfvImage_eq {metadata : TdxMetadata} {sec : TdxMetadataSection}
    (hmetadata : parseTdxMetadata firmware = .ok metadata)
    (hsole : (metadata.sections.filter fun s => s.sectionType == tdxSectionCfv) = [sec])
    (hinside : sec.dataOffset + sec.dataSize ≤ firmware.length)
    (hsize : sec.dataSize = sec.memorySize) (hne : sec.memorySize ≠ 0) :
    cfvImage firmware = .ok (slice firmware sec.dataOffset (sec.dataOffset + sec.dataSize)) := by
  have hlength : (slice firmware sec.dataOffset (sec.dataOffset + sec.dataSize)).length
      = sec.memorySize := by
    rw [length_slice_of_le hinside, Nat.add_sub_cancel_left, hsize]
  simp only [cfvImage, hmetadata, ok_bind, hsole]
  rw [refuseIf_of_not (by omega), ok_bind, refuseIf_of_not (by omega), ok_bind,
    refuseIf_of_not (by omega), ok_bind, zeroFill, hlength, Nat.sub_self, List.replicate_zero,
    List.append_nil]
  rfl

/-- A measured flash volume inside the image that is accepted is measured in full. -/
theorem RegionOf.measuresNamedBytes {metadata : TdxMetadata} {banks : List GuestPhysicalRegion}
    {sec : TdxMetadataSection} {region : MaterialRegion}
    (hregion : RegionOf (sectionContent firmware banks metadata.sections) sec region)
    (hmetadata : parseTdxMetadata firmware = .ok metadata) (hflash : IsMeasuredFlash sec)
    (haccepted : SectionAccepted firmware sec)
    (hinside : sec.dataOffset + sec.dataSize ≤ firmware.length) :
    MeasuresNamedBytes firmware metadata.sections sec region := by
  obtain ⟨htype, hmeasured⟩ := hflash
  have hbuffer : slice firmware sec.dataOffset (sec.dataOffset + sec.dataSize) = region.hostBuffer := by
    have hcontent := hregion.content_eq
    rw [sectionContent, if_pos htype] at hcontent
    exact pure_eq_ok.mp hcontent
  have hlength : region.hostBuffer.length = sec.dataSize := by
    rw [← hbuffer, length_slice_of_le hinside, Nat.add_sub_cancel_left]
  -- the length that is compared with the memory size is the whole data size
  have hsize : sec.dataSize = sec.memorySize := by
    rw [haccepted.filled hmeasured, ← hregion.length_hostBuffer, hlength]
  refine ⟨hinside, hsize, ?_, hlength, fun hsole hne => ?_⟩
  · rw [← hbuffer]
    exact hasAt_slice _ _ _
  · rw [← hbuffer]
    exact cfvImage_eq hmetadata hsole hinside hsize hne

/-- **MRTD never measures a clamped section, except on inputs with a measured flash volume past the end
of the image that complete, overflow or exceed all the same.** -/
theorem never_clamped_iff (sha384 : Bytes → Bytes) (firmware : Bytes) (ramGib : Option Int)
    (numaNodes : Int) (maxPerNodeGib : Option Int) :
    NeverClamped sha384 firmware ramGib numaNodes maxPerNodeGib ↔
      ¬ (PastEnd firmware ∧ (Completes firmware ramGib numaNodes maxPerNodeGib ∨
        Overflows firmware ramGib numaNodes maxPerNodeGib ∨
        Exceeds firmware ramGib numaNodes maxPerNodeGib)) := by
  have houtcome := computeMrtd_outcome sha384 firmware ramGib numaNodes maxPerNodeGib
  constructor
  · rintro hclamped ⟨hpast, hends⟩
    obtain ⟨hreturns, hoverflows, hexceeds⟩ := houtcome.iff_refused.mp (hclamped.refused hpast)
    exact hends.elim hreturns fun h => h.elim hoverflows hexceeds
  · intro hcond
    constructor
    case exact =>
      intro value hvalue regions hregions metadata hmetadata
      have hcompletes := houtcome.returns_of_ok hvalue
      have hinside : ∀ sec ∈ metadata.sections, IsMeasuredFlash sec →
          sec.dataOffset + sec.dataSize ≤ firmware.length := by
        intro sec hsec hflash
        by_contra hpast
        exact hcond ⟨⟨metadata, hmetadata, sec, hsec, hflash, hpast⟩, Or.inl hcompletes⟩
      simp only [mrtdRegions, bind_eq_ok] at hregions
      obtain ⟨banks, -, hextract⟩ := hregions
      obtain ⟨metadata', hmetadata', hforall⟩ := extractMaterialRegions_eq hextract
      obtain rfl := ok_unique hmetadata hmetadata'
      have hboth : ∀ sec ∈ metadata.sections, SectionAccepted firmware sec ∧
          (IsMeasuredFlash sec → sec.dataOffset + sec.dataSize ≤ firmware.length) :=
        fun sec hsec => ⟨(hcompletes.sections hmetadata sec hsec).1, hinside sec hsec⟩
      refine ((List.forall₂_and_left _ _).mpr ⟨hboth, hforall⟩).imp ?_
      rintro sec region ⟨⟨haccepted, hle⟩, hregion⟩ hflash
      exact hregion.measuresNamedBytes hmetadata hflash haccepted (hle hflash)
    case refused =>
      intro hpast
      exact houtcome.otherwise (fun hreturns => hcond ⟨hpast, Or.inl hreturns⟩)
        (fun hoverflows => hcond ⟨hpast, Or.inr (Or.inl hoverflows)⟩)
        fun hexceeds => hcond ⟨hpast, Or.inr (Or.inr hexceeds)⟩

/-- **What is enough, on the descriptors alone**: that every measured flash volume lies in the image. -/
theorem neverClamped_of_inside (sha384 : Bytes → Bytes) {metadata : TdxMetadata}
    (hmetadata : parseTdxMetadata firmware = .ok metadata)
    (hinside : ∀ sec ∈ metadata.sections, IsMeasuredFlash sec →
      sec.dataOffset + sec.dataSize ≤ firmware.length) :
    NeverClamped sha384 firmware ramGib numaNodes maxPerNodeGib := by
  refine (never_clamped_iff sha384 firmware ramGib numaNodes maxPerNodeGib).mpr ?_
  rintro ⟨⟨metadata', hmetadata', sec, hsec, hflash, hpast⟩, -⟩
  obtain rfl := ok_unique hmetadata hmetadata'
  exact hpast (hinside sec hsec hflash)

/-- A handover block, and a measured volume that names two pages where the image has one. -/
def clampedSections : List TdxMetadataSection :=
  [⟨0, 0, 0x809000, 0x1000, tdxSectionTdhob, 0⟩,
    ⟨168, 0x2000, 0x80F000, 0x1000, tdxSectionCfv, tdxMetadataAttrExtendMr⟩]

/-- The firmware with these sections, 4264 bytes long. -/
def clampedFirmware : Bytes := List.replicate 4096 0x00 ++ sampleFirmware clampedSections

/-- The last page of the image is measured for the volume. -/
theorem never_clamped_clamped : ¬ NeverClamped id clampedFirmware none 1 none := by
  intro h
  have hlaunch : Launch clampedFirmware none 1 none ⟨1, clampedSections⟩ []
      ⟨0, 0, 0x809000, 0x1000, tdxSectionTdhob, 0⟩ := by
    refine ⟨by decide +kernel, rfl, ?_, rfl⟩
    simp [clampedSections, KnownType]
  have hlength : clampedFirmware.length = 4096 + 168 := by
    rw [clampedFirmware, List.length_append, List.length_replicate]
    exact congrArg (4096 + ·) (by decide +kernel : (sampleFirmware clampedSections).length = 168)
  have hpast : PastEnd clampedFirmware := by
    refine ⟨_, hlaunch.parsed, _, List.mem_cons_of_mem _ List.mem_cons_self, ⟨Or.inr rfl, rfl⟩, ?_⟩
    rw [hlength]
    decide
  -- what is left of the image behind the offset is as long as the volume's range
  have haccepted : ∀ sec ∈ clampedSections, SectionAccepted clampedFirmware sec ∧ EndsInRange sec := by
    rw [clampedSections, List.forall_mem_cons, List.forall_mem_singleton]
    refine ⟨⟨⟨fun hm => absurd hm (by decide), rfl, rfl⟩, by simp [EndsInRange]⟩,
      ⟨fun _ => ?_, rfl, rfl⟩, by simp [EndsInRange]⟩
    rw [contentLength, hlength]
    rfl
  have hpacks : TdhobPacks clampedSections [] ⟨0, 0, 0x809000, 0x1000, tdxSectionTdhob, 0⟩ :=
    ⟨by decide, fun g hg => absurd hg List.not_mem_nil⟩
  obtain ⟨value, hvalue⟩ := (computeMrtd_outcome id _ _ _ _).of_returns
    ⟨_, _, _, hlaunch, ⟨hpacks, by unfold TdhobFits; decide, by unfold Fillable; decide⟩, haccepted⟩
  obtain ⟨message, herror⟩ := h.refused hpast
  cases herror.symm.trans hvalue

end CvmMeasure.Tdx
