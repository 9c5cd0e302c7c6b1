import CvmMeasure.Tdx.MrtdStream

/-! # The RAM topology and MRTD

The topology reaches MRTD through one section only, the handover block, whose content is read only if
the section has `EXTEND_MR`. Two runs over one firmware with different topologies therefore

* hash the same pages if the handover block is not measured (`pagesOf_unmeasured`);
* otherwise differ in the chunks of its extends and in nothing else (`forall₂_pagesOf`).

Both together are **`mrtd_topology`**. -/

namespace CvmMeasure.Tdx

open Binary Python

/-! ## The pages of a section -/

/-- A section that is not measured has the same pages whatever its content. -/
theorem pagesOf_unmeasured (gpr : GuestPhysicalRegion) (content content' : Bytes) :
    pagesOf gpr false content = pagesOf gpr false content' := rfl

/-- Two records that are the same, or extends of one address with different chunks. -/
inductive SameButChunk : MeasureRecord → MeasureRecord → Prop
  | same (r : MeasureRecord) : SameButChunk r r
  | chunk {gpa : Nat} {c c' : Bytes} (h : c.length = mrExtendChunkSize)
      (h' : c'.length = mrExtendChunkSize) :
      SameButChunk (.mrExtend gpa c) (.mrExtend gpa c')

/-- **The records of one measured range with two contents differ in their chunks only.** -/
theorem forall₂_pagesOf (gpr : GuestPhysicalRegion) {content content' : Bytes}
    (h : gpr.length ≤ content.length) (h' : gpr.length ≤ content'.length) :
    List.Forall₂ SameButChunk ((pagesOf gpr true content).flatMap GuestPage.records)
      ((pagesOf gpr true content').flatMap GuestPage.records) := by
  unfold pagesOf
  rw [List.flatMap_map, List.flatMap_map]
  have hpages : List.Forall₂ (fun k k' => k = k' ∧ k < gpr.length / pageSize)
      (List.range (gpr.length / pageSize)) (List.range (gpr.length / pageSize)) :=
    List.forall₂_same.mpr fun k hk => ⟨rfl, List.mem_range.mp hk⟩
  refine List.rel_flatMap hpages ?_
  rintro k _ ⟨rfl, hk⟩
  -- the page is added at the same address, and its chunks are extended at the same addresses
  refine List.Forall₂.cons (SameButChunk.same _) ?_
  show List.Forall₂ SameButChunk
    (GuestPage.chunkRecords _ (slice content (k * pageSize) (k * pageSize + pageSize)))
    (GuestPage.chunkRecords _ (slice content' (k * pageSize) (k * pageSize + pageSize)))
  unfold GuestPage.chunkRecords
  rw [List.forall₂_map_left_iff, List.forall₂_map_right_iff]
  refine List.forall₂_same.mpr fun j hj => ?_
  have hj' := List.mem_range.mp hj
  have hlength : ∀ {bytes : Bytes}, gpr.length ≤ bytes.length →
      (slice (slice bytes (k * pageSize) (k * pageSize + pageSize)) (j * mrExtendChunkSize)
        (j * mrExtendChunkSize + mrExtendChunkSize)).length = mrExtendChunkSize := by
    intro bytes hle
    rw [slice_slice _ (by simp only [pageSize, mrExtendChunkSize]; omega), length_slice_of_le]
    · omega
    · simp only [pageSize, mrExtendChunkSize] at hk ⊢
      omega
  exact SameButChunk.chunk (hlength h) (hlength h')

/-! ## The sections of an accepted firmware -/

/-- The pages of two runs of sections. -/
theorem sectionPages_append {content : TdxMetadataSection → Py Bytes}
    {secs secs' : List TdxMetadataSection} {pages : List GuestPage} :
    sectionPages content (secs ++ secs') = .ok pages ↔
      ∃ first rest, sectionPages content secs = .ok first ∧ sectionPages content secs' = .ok rest ∧
        pages = first ++ rest := by
  induction secs generalizing pages with
  | nil =>
    constructor
    · intro h
      exact ⟨[], pages, rfl, h, rfl⟩
    · rintro ⟨_, rest, hfirst, hrest, rfl⟩
      obtain rfl := pure_eq_ok.mp hfirst
      exact hrest
  | cons sec secs ih =>
    simp only [List.cons_append, sectionPages, bind_eq_ok, pure_eq_ok, ih]
    constructor
    · rintro ⟨bytes, hbytes, _, ⟨first, rest, hfirst, hrest, rfl⟩, rfl⟩
      exact ⟨_, rest, ⟨bytes, hbytes, first, hfirst, rfl⟩, hrest, (List.append_assoc _ _ _).symm⟩
    · rintro ⟨_, rest, ⟨bytes, hbytes, first, hfirst, rfl⟩, hrest, rfl⟩
      exact ⟨bytes, hbytes, _, ⟨first, rest, hfirst, hrest, rfl⟩, (List.append_assoc _ _ _).symm⟩

/-- Sections with the same contents have the same pages. -/
theorem sectionPages_congr {content content' : TdxMetadataSection → Py Bytes}
    {secs : List TdxMetadataSection} (h : ∀ sec ∈ secs, content sec = content' sec) :
    sectionPages content secs = sectionPages content' secs := by
  induction secs with
  | nil => rfl
  | cons sec secs ih =>
    rw [sectionPages, sectionPages, h sec List.mem_cons_self,
      ih fun x hx => h x (List.mem_cons_of_mem sec hx)]

/-- Only the content of the handover block depends on the RAM banks. -/
theorem sectionContent_congr {firmware : Bytes} {banks banks' : List GuestPhysicalRegion}
    {sections : List TdxMetadataSection} {sec : TdxMetadataSection}
    (h : sec.sectionType ≠ tdxSectionTdhob) :
    sectionContent firmware banks sections sec = sectionContent firmware banks' sections sec := by
  rw [sectionContent, sectionContent, if_neg h, if_neg h]

/-- The regions are extracted from sections with exactly one handover block. -/
theorem exists_tdhob {firmware : Bytes} {opts : LaunchOptions} {regions : List MaterialRegion}
    {metadata : TdxMetadata} (hmetadata : parseTdxMetadata firmware = .ok metadata)
    (h : extractMaterialRegions firmware opts = .ok regions) :
    ∃ pre tdhob post, metadata.sections = pre ++ tdhob :: post ∧
      tdhob.sectionType = tdxSectionTdhob ∧ (∀ sec ∈ pre, sec.sectionType ≠ tdxSectionTdhob) ∧
      ∀ sec ∈ post, sec.sectionType ≠ tdxSectionTdhob := by
  simp only [extractMaterialRegions, bind_eq_ok] at h
  obtain ⟨metadata', hmetadata', ⟨loopRegions, index⟩, hloop, h⟩ := h
  obtain rfl := ok_unique hmetadata hmetadata'
  obtain ⟨-, hindex⟩ := extractLoop_none hloop
  cases index with
  | none => exact absurd h throw_ne_ok
  | some i =>
    obtain ⟨pre, tdhob, post, hsections, -, htdhob, hpre, hpost⟩ := hindex i rfl
    exact ⟨pre, tdhob, post, hsections, htdhob, hpre, hpost⟩

/-- What is hashed, around the handover block: the pages of the other sections do not depend on the
topology. -/
theorem mrtdStream_around_tdhob {firmware stream : Bytes} {ramGib maxPerNodeGib : Option Int}
    {numaNodes : Int} {metadata : TdxMetadata} {pre post : List TdxMetadataSection}
    {tdhob : TdxMetadataSection} (h : mrtdStream firmware ramGib numaNodes maxPerNodeGib = .ok stream)
    (hmetadata : parseTdxMetadata firmware = .ok metadata)
    (hsections : metadata.sections = pre ++ tdhob :: post)
    (hpre : ∀ sec ∈ pre, sec.sectionType ≠ tdxSectionTdhob)
    (hpost : ∀ sec ∈ post, sec.sectionType ≠ tdxSectionTdhob) :
    ∃ before behind content,
      sectionPages (sectionContent firmware [] metadata.sections) pre = .ok before ∧
      sectionPages (sectionContent firmware [] metadata.sections) post = .ok behind ∧
      (hasExtendMr tdhob = true → content.length = tdhob.memorySize) ∧
      stream = pageStream
        (before ++ (pagesOf (sectionGpr tdhob) (hasExtendMr tdhob) content ++ behind)) := by
  obtain ⟨metadata', banks, pages, hmetadata', hbanks, hfits, hpages, -, rfl⟩ := mrtdStream_pages h
  obtain rfl := ok_unique hmetadata hmetadata'
  simp only [referencePages, hmetadata, hbanks, ok_bind] at hpages
  have hcongr : ∀ secs, (∀ sec ∈ secs, sec.sectionType ≠ tdxSectionTdhob) →
      sectionPages (sectionContent firmware banks metadata.sections) secs
        = sectionPages (sectionContent firmware [] metadata.sections) secs :=
    fun secs hsecs => sectionPages_congr fun sec hsec => sectionContent_congr (hsecs sec hsec)
  have hsplit : sectionPages (sectionContent firmware banks metadata.sections) (pre ++ tdhob :: post)
      = .ok pages := by rwa [← hsections]
  obtain ⟨before, rest, hbefore, hrest, rfl⟩ := sectionPages_append.mp hsplit
  simp only [sectionPages, bind_eq_ok, pure_eq_ok] at hrest
  obtain ⟨content, hcontent, behind, hbehind, rfl⟩ := hrest
  refine ⟨before, behind, content, (hcongr pre hpre).symm.trans hbefore,
    (hcongr post hpost).symm.trans hbehind, fun hmeasured => ?_, rfl⟩
  obtain ⟨content', hcontent', hlength⟩ := (hfits tdhob (by rw [hsections]; simp)).length_content hmeasured
  rwa [ok_unique hcontent hcontent']

/-! ## The theorem -/

/-- **The RAM topology is invisible to MRTD unless the handover block is measured.** Take two
topologies for which `compute_mrtd` returns on one firmware. If its handover block does not have
`EXTEND_MR`, the two values are the same. If it has, the streams hashed consist of the same pages
around it, and the records of its own pages differ in nothing but the chunks of the extends. -/
theorem mrtd_topology (sha384 : Bytes → Bytes) {firmware value value' : Bytes}
    {ramGib ramGib' maxPerNodeGib maxPerNodeGib' : Option Int} {numaNodes numaNodes' : Int}
    (h : computeMrtd sha384 firmware ramGib numaNodes maxPerNodeGib = .ok value)
    (h' : computeMrtd sha384 firmware ramGib' numaNodes' maxPerNodeGib' = .ok value') :
    ∃ metadata pre tdhob post, parseTdxMetadata firmware = .ok metadata ∧
      metadata.sections = pre ++ tdhob :: post ∧ tdhob.sectionType = tdxSectionTdhob ∧
      (∀ sec ∈ pre ++ post, sec.sectionType ≠ tdxSectionTdhob) ∧
      (hasExtendMr tdhob = false → value = value') ∧
      (hasExtendMr tdhob = true → ∃ before behind content content',
        sectionPages (sectionContent firmware [] metadata.sections) pre = .ok before ∧
        sectionPages (sectionContent firmware [] metadata.sections) post = .ok behind ∧
        mrtdStream firmware ramGib numaNodes maxPerNodeGib
          = .ok (pageStream (before ++ (pagesOf (sectionGpr tdhob) true content ++ behind))) ∧
        mrtdStream firmware ramGib' numaNodes' maxPerNodeGib'
          = .ok (pageStream (before ++ (pagesOf (sectionGpr tdhob) true content' ++ behind))) ∧
        List.Forall₂ SameButChunk
          ((pagesOf (sectionGpr tdhob) true content).flatMap GuestPage.records)
          ((pagesOf (sectionGpr tdhob) true content').flatMap GuestPage.records)) := by
  simp only [computeMrtd, bind_eq_ok, pure_eq_ok] at h h'
  obtain ⟨stream, hstream, rfl⟩ := h
  obtain ⟨stream', hstream', rfl⟩ := h'
  obtain ⟨metadata, pre, tdhob, post, hmetadata, hsections, htdhob, hpre, hpost⟩ :
      ∃ metadata pre tdhob post, parseTdxMetadata firmware = .ok metadata ∧
        metadata.sections = pre ++ tdhob :: post ∧ tdhob.sectionType = tdxSectionTdhob ∧
        (∀ sec ∈ pre, sec.sectionType ≠ tdxSectionTdhob) ∧
        ∀ sec ∈ post, sec.sectionType ≠ tdxSectionTdhob := by
    obtain ⟨metadata, _, _, hmetadata, -⟩ := mrtdStream_pages hstream
    simp only [mrtdStream, mrtdRegions, bind_eq_ok] at hstream
    obtain ⟨_, ⟨_, -, hextract⟩, -⟩ := hstream
    obtain ⟨pre, tdhob, post, hrest⟩ := exists_tdhob hmetadata hextract
    exact ⟨metadata, pre, tdhob, post, hmetadata, hrest⟩
  obtain ⟨before, behind, content, hbefore, hbehind, hlength, rfl⟩ :=
    mrtdStream_around_tdhob hstream hmetadata hsections hpre hpost
  obtain ⟨before', behind', content', hbefore', hbehind', hlength', rfl⟩ :=
    mrtdStream_around_tdhob hstream' hmetadata hsections hpre hpost
  obtain rfl := ok_unique hbefore hbefore'
  obtain rfl := ok_unique hbehind hbehind'
  refine ⟨metadata, pre, tdhob, post, hmetadata, hsections, htdhob,
    List.forall_mem_append.mpr ⟨hpre, hpost⟩, fun hmeasured => ?_, fun hmeasured => ?_⟩
  · rw [hmeasured, pagesOf_unmeasured _ content content']
  · rw [hmeasured] at hstream hstream'
    exact ⟨before, behind, content, content', hbefore, hbehind, hstream, hstream',
      forall₂_pagesOf _ (hlength hmeasured).ge (hlength' hmeasured).ge⟩

/-! ## A guest of 4 GiB -/

/-- A handover block and a configuration volume, neither of them measured. -/
def sampleGuestSections : List TdxMetadataSection :=
  [⟨0, 0, 0x809000, 0x1000, tdxSectionTdhob, 0⟩, ⟨0, 16, 0x80F000, 0x1000, tdxSectionCfv, 0⟩]

/-- The firmware with these sections, and a page in front for the volume. -/
def sampleGuestFirmware : Bytes := List.replicate 4096 0x00 ++ sampleFirmware sampleGuestSections

/-- The RAM of a guest of 4 GiB. -/
def sampleGuestBanks : List GuestPhysicalRegion :=
  [⟨0, 3 * gib⟩, ⟨4 * gib - 2 * mib, 2 * mib⟩, ⟨4 * gib, gib⟩]

/-- The small firmware has these sections, -/
theorem parse_sampleGuestFirmware :
    parseTdxMetadata sampleGuestFirmware = .ok ⟨1, sampleGuestSections⟩ := by decide +kernel

/-- these ranges without a section, -/
theorem unaccepted_sampleGuest :
    unacceptedMemRanges (sampleGuestSections.map sectionGpr) sampleGuestBanks
      = [⟨0, 0x809000⟩, ⟨0x80A000, 0x5000⟩, ⟨0x810000, 3 * gib - 0x810000⟩,
        ⟨4 * gib - 2 * mib, 2 * mib⟩, ⟨4 * gib, gib⟩] := by
  simp [sampleGuestSections, sampleGuestBanks, sectionGpr, unacceptedMemRanges, sortByStart, sweepBanks,
    sweepPrivate, gib, mib, GuestPhysicalRegion.stop, GuestPhysicalRegion.intersect]

/-- and an MRTD. -/
theorem exists_mrtdStream_sampleGuest :
    ∃ stream, mrtdStream sampleGuestFirmware (some 4) 1 none = .ok stream := by
  have hbanks : ramBanks (some 4) 1 none = .ok sampleGuestBanks := by decide +kernel
  have hne : sampleGuestBanks ≠ [] := by decide
  have hopts : (launchOptions sampleGuestBanks).guestRamBanks = sampleGuestBanks := rfl
  simp only [mrtdStream, mrtdRegions, hbanks, ok_bind, extractMaterialRegions,
    parse_sampleGuestFirmware]
  rw [hopts, if_neg hne, unaccepted_sampleGuest]
  exact exists_of_isOk (by decide +kernel)

/-- With 4 GiB of RAM and without, the firmware has the same MRTD. -/
theorem mrtd_topology_sample :
    ∃ value, computeMrtd id sampleGuestFirmware (some 4) 1 none = .ok value ∧
      computeMrtd id sampleGuestFirmware none 1 none = .ok value := by
  obtain ⟨stream, hstream⟩ := exists_mrtdStream_sampleGuest
  obtain ⟨stream', hstream'⟩ : ∃ stream, mrtdStream sampleGuestFirmware none 1 none = .ok stream :=
    exists_of_isOk (by decide +kernel)
  have h : computeMrtd id sampleGuestFirmware (some 4) 1 none = .ok (id stream) := by
    rw [computeMrtd, hstream, ok_bind]
    rfl
  have h' : computeMrtd id sampleGuestFirmware none 1 none = .ok (id stream') := by
    rw [computeMrtd, hstream', ok_bind]
    rfl
  obtain ⟨metadata, pre, tdhob, post, hmetadata, hsections, -, -, hsame, -⟩ :=
    mrtd_topology id h h'
  obtain rfl := ok_unique parse_sampleGuestFirmware hmetadata
  have hmem : tdhob ∈ sampleGuestSections := by
    show tdhob ∈ (⟨1, sampleGuestSections⟩ : TdxMetadata).sections
    rw [hsections]
    simp
  have hunmeasured : ∀ sec ∈ sampleGuestSections, hasExtendMr sec = false := by decide
  exact ⟨_, h, (hsame (hunmeasured tdhob hmem)).symm ▸ h'⟩

end CvmMeasure.Tdx
