import CvmMeasure.Hash.Chain
import CvmMeasure.Tdx.MrtdPages

/-! # The MRTD stream is exact and uniquely decodable

The reference goes over the metadata sections, not over the tool's regions: each section gives the
pages of its memory range, measured exactly when it has `EXTEND_MR`.

* **`referencePages`**: the pages MRTD measures;
* **`mrtd_stream_exact`**: whenever `compute_mrtd` returns, it has hashed exactly these pages, and two
  accepted inputs with one stream have the same pages. -/

namespace CvmMeasure.Tdx

open Binary Python Hash

/-! ## The reference -/

/-- The RAM ranges the handover block declares unaccepted. -/
def unacceptedRanges (sections : List TdxMetadataSection) (banks : List GuestPhysicalRegion) :
    List GuestPhysicalRegion :=
  if banks = [] then [] else unacceptedMemRanges (sections.map sectionGpr) banks

/-- The content of a section: its file bytes, the handover block, or nothing. -/
def sectionContent (firmware : Bytes) (banks : List GuestPhysicalRegion)
    (sections : List TdxMetadataSection) (sec : TdxMetadataSection) : Py Bytes :=
  if sec.sectionType = tdxSectionBfv ∨ sec.sectionType = tdxSectionCfv then
    pure (slice firmware sec.dataOffset (sec.dataOffset + sec.dataSize))
  else if sec.sectionType = tdxSectionTdhob then
    buildTdhob (sectionGpr sec) (sections.map sectionGpr) (unacceptedRanges sections banks) true
  else pure []

/-- The section has `EXTEND_MR`. -/
def hasExtendMr (sec : TdxMetadataSection) : Bool := sec.attributes &&& tdxMetadataAttrExtendMr != 0

/-- The pages of some of the sections, in descriptor order. -/
def sectionPages (content : TdxMetadataSection → Py Bytes) :
    List TdxMetadataSection → Py (List GuestPage)
  | [] => pure []
  | sec :: secs => do
    let bytes ← content sec
    let rest ← sectionPages content secs
    pure (pagesOf (sectionGpr sec) (hasExtendMr sec) bytes ++ rest)

/-- The pages MRTD measures, in order. -/
def referencePages (firmware : Bytes) (ramGib : Option Int) (numaNodes : Int)
    (maxPerNodeGib : Option Int) : Py (List GuestPage) := do
  let metadata ← parseTdxMetadata firmware
  let banks ← ramBanks ramGib numaNodes maxPerNodeGib
  sectionPages (sectionContent firmware banks metadata.sections) metadata.sections

/-- A section's range is page-aligned, and its content fills the range if it is measured. -/
structure SectionFits (content : TdxMetadataSection → Py Bytes) (sec : TdxMetadataSection) : Prop where
  base_aligned : sec.memoryBase % pageSize = 0
  size_aligned : sec.memorySize % pageSize = 0
  length_content : hasExtendMr sec = true →
    ∃ bytes, content sec = .ok bytes ∧ bytes.length = sec.memorySize

/-! ## Regions and sections -/

section Extraction

variable {firmware : Bytes} {opts : LaunchOptions}

/-- The region of a section before the handover block is built. -/
def sectionRegion (firmware : Bytes) (opts : LaunchOptions) (sec : TdxMetadataSection) :
    MaterialRegion :=
  ⟨sectionGpr sec, sectionBuffer firmware opts sec, sectionAttributes opts sec⟩

/-- The region measures the section with the content given. -/
structure RegionOf (content : TdxMetadataSection → Py Bytes) (sec : TdxMetadataSection)
    (region : MaterialRegion) : Prop where
  content_eq : content sec = .ok region.hostBuffer
  gpr_eq : region.gpr = sectionGpr sec
  attributes_eq : region.tdvfAttributes = sec.attributes

/-- Sections that are no handover block are measured as they are first extracted. -/
theorem forall₂_sectionRegion {banks : List GuestPhysicalRegion}
    {sections secs : List TdxMetadataSection}
    (h : ∀ sec ∈ secs, sec.sectionType ≠ tdxSectionTdhob) :
    List.Forall₂ (RegionOf (sectionContent firmware banks sections)) secs
      (secs.map (sectionRegion firmware (launchOptions banks))) := by
  rw [List.forall₂_map_right_iff, List.forall₂_same]
  intro sec hsec
  refine ⟨?_, rfl, rfl⟩
  rw [sectionContent, if_neg (h sec hsec)]
  simp only [sectionRegion, sectionBuffer]
  split
  · rfl
  · rfl

/-- One round of the loop adds a region, and meets at most one handover block. -/
theorem extractLoop_cons {sec : TdxMetadataSection} {secs : List TdxMetadataSection}
    {acc : List MaterialRegion} {index : Option Nat} {result : List MaterialRegion × Option Nat}
    (h : extractLoop firmware opts (sec :: secs) acc index = .ok result) :
    (sec.sectionType ≠ tdxSectionTdhob ∧
      extractLoop firmware opts secs (acc ++ [sectionRegion firmware opts sec]) index = .ok result) ∨
    (sec.sectionType = tdxSectionTdhob ∧ index = none ∧
      extractLoop firmware opts secs (acc ++ [sectionRegion firmware opts sec]) (some acc.length)
        = .ok result) := by
  rw [extractLoop] at h
  split at h
  · rename_i htype
    refine Or.inl ⟨fun htdhob => ?_, h⟩
    rw [htdhob] at htype
    exact absurd htype (by decide)
  · split at h
    · rename_i htdhob
      simp only [bind_eq_ok, refuseIf_eq_ok, Bool.not_eq_true, Option.isSome_eq_false_iff,
        Option.isNone_iff_eq_none] at h
      obtain ⟨_, hindex, h⟩ := h
      exact Or.inr ⟨htdhob, hindex, h⟩
    · exact absurd h throw_ne_ok

/-- Behind a handover block the loop meets no other. -/
theorem extractLoop_some {secs : List TdxMetadataSection} {acc regions : List MaterialRegion}
    {i : Nat} {index : Option Nat}
    (h : extractLoop firmware opts secs acc (some i) = .ok (regions, index)) :
    regions = acc ++ secs.map (sectionRegion firmware opts) ∧ index = some i ∧
      ∀ sec ∈ secs, sec.sectionType ≠ tdxSectionTdhob := by
  induction secs generalizing acc with
  | nil =>
    obtain ⟨rfl, rfl⟩ := Prod.mk.inj (pure_eq_ok.mp h)
    simp
  | cons sec secs ih =>
    rcases extractLoop_cons h with ⟨htype, h⟩ | ⟨-, hindex, -⟩
    · obtain ⟨rfl, rfl, hrest⟩ := ih h
      exact ⟨by simp, rfl, List.forall_mem_cons.mpr ⟨htype, hrest⟩⟩
    · cases hindex

/-- A section's place counts the regions built and the sections before it. -/
theorem place_cons (acc : List MaterialRegion) (region : MaterialRegion) (sec : TdxMetadataSection)
    (pre : List TdxMetadataSection) :
    (acc ++ [region]).length + pre.length = acc.length + (sec :: pre).length := by
  simp only [List.length_append, List.length_cons, List.length_nil]
  omega

/-- The loop's regions are the sections' in order, and its index is the place of the only handover
block. -/
theorem extractLoop_none {secs : List TdxMetadataSection} {acc regions : List MaterialRegion}
    {index : Option Nat} (h : extractLoop firmware opts secs acc none = .ok (regions, index)) :
    regions = acc ++ secs.map (sectionRegion firmware opts) ∧
      ∀ i ∈ index, ∃ pre tdhob post, secs = pre ++ tdhob :: post ∧ i = acc.length + pre.length ∧
        tdhob.sectionType = tdxSectionTdhob ∧
        (∀ sec ∈ pre, sec.sectionType ≠ tdxSectionTdhob) ∧
        ∀ sec ∈ post, sec.sectionType ≠ tdxSectionTdhob := by
  induction secs generalizing acc with
  | nil =>
    obtain ⟨rfl, rfl⟩ := Prod.mk.inj (pure_eq_ok.mp h)
    simp
  | cons sec secs ih =>
    rcases extractLoop_cons h with ⟨htype, h⟩ | ⟨htdhob, -, h⟩
    · obtain ⟨rfl, hindex⟩ := ih h
      refine ⟨by simp, fun i hi => ?_⟩
      obtain ⟨pre, tdhob, post, rfl, rfl, htdhob, hpre, hpost⟩ := hindex i hi
      have hplace := place_cons acc (sectionRegion firmware opts sec) sec pre
      exact ⟨sec :: pre, tdhob, post, rfl, hplace, htdhob, List.forall_mem_cons.mpr ⟨htype, hpre⟩,
        hpost⟩
    · -- the handover block: no other follows it
      obtain ⟨rfl, rfl, hrest⟩ := extractLoop_some h
      refine ⟨by simp, fun i hi => ?_⟩
      obtain rfl := Option.mem_some_iff.mp hi
      exact ⟨[], sec, secs, rfl, rfl, htdhob, by simp, hrest⟩

/-- **The regions measured are the sections in order**, each with its content and attributes. -/
theorem extractMaterialRegions_eq {banks : List GuestPhysicalRegion} {regions : List MaterialRegion}
    (h : extractMaterialRegions firmware (launchOptions banks) = .ok regions) :
    ∃ metadata, parseTdxMetadata firmware = .ok metadata ∧
      List.Forall₂ (RegionOf (sectionContent firmware banks metadata.sections)) metadata.sections
        regions := by
  simp only [extractMaterialRegions, bind_eq_ok] at h
  obtain ⟨metadata, hmetadata, ⟨loopRegions, index⟩, hloop, h⟩ := h
  obtain ⟨rfl, hindex⟩ := extractLoop_none hloop
  refine ⟨metadata, hmetadata, ?_⟩
  cases index with
  | none => exact absurd h throw_ne_ok
  | some i =>
    obtain ⟨pre, tdhob, post, hsections, rfl, htdhob, hpre, hpost⟩ := hindex i rfl
    simp only [hsections, List.nil_append, List.length_nil, Nat.zero_add, List.map_append,
      List.map_cons] at h
    rw [List.getElem?_append_right (by simp), List.length_map, Nat.sub_self] at h
    simp only [List.getElem?_cons_zero, bind_eq_ok, pure_eq_ok] at h
    obtain ⟨buffer, hbuffer, rfl⟩ := h
    rw [List.set_append_right _ _ (by simp), List.length_map, Nat.sub_self, List.set_cons_zero]
    -- the handover block has the content built for it, every other section the one it was given
    have htdhobRegion : RegionOf (sectionContent firmware banks metadata.sections) tdhob
        { sectionRegion firmware (launchOptions banks) tdhob with hostBuffer := buffer } := by
      refine ⟨?_, rfl, rfl⟩
      rw [sectionContent, if_neg (by rw [htdhob]; decide), if_pos htdhob, hsections,
        List.map_append, List.map_cons, unacceptedRanges, List.map_append, List.map_cons]
      exact hbuffer
    have hall : List.Forall₂ (RegionOf (sectionContent firmware banks metadata.sections))
        (pre ++ tdhob :: post) _ := List.rel_append (forall₂_sectionRegion hpre)
      (List.Forall₂.cons htdhobRegion (forall₂_sectionRegion hpost))
    rw [← hsections] at hall
    exact hall

end Extraction

/-! ## The theorem -/

/-- The bytes hashed for regions are those of the pages of their sections. -/
theorem measureRegions_pages {content : TdxMetadataSection → Py Bytes}
    {secs : List TdxMetadataSection} {regions : List MaterialRegion}
    (hregions : List.Forall₂ (RegionOf content) secs regions) {stream : Bytes}
    (h : measureRegions false regions = .ok stream) :
    ∃ pages, sectionPages content secs = .ok pages ∧ stream = pageStream pages ∧
      (∀ p ∈ pages, p.WellFormed) ∧ ∀ sec ∈ secs, SectionFits content sec := by
  induction hregions generalizing stream with
  | nil =>
    obtain rfl := pure_eq_ok.mp h
    exact ⟨[], rfl, rfl, by simp, by simp⟩
  | @cons sec region secs regions hregion _ ih =>
    simp only [measureRegions, bind_eq_ok, pure_eq_ok] at h
    obtain ⟨first, hfirst, rest, hrest, rfl⟩ := h
    obtain ⟨pages, hpages, rfl, hwf, hfits⟩ := ih hrest
    obtain ⟨hbase, hsize, hlength, rfl, hwf'⟩ := initMemoryRegion_pages hfirst
    obtain ⟨gpr, buffer, attributes⟩ := region
    obtain ⟨hcontent, rfl, rfl⟩ := hregion
    have hmeasured : measuresBytes false ⟨sectionGpr sec, buffer, sec.attributes⟩ = hasExtendMr sec :=
      Bool.or_false _
    rw [hmeasured] at hlength hwf' ⊢
    refine ⟨pagesOf (sectionGpr sec) (hasExtendMr sec) buffer ++ pages, ?_, ?_, ?_, ?_⟩
    · simp only [sectionPages, hcontent, hpages, ok_bind]
      rfl
    · rw [pageStream, pageStream, pageStream, List.flatMap_append, List.flatMap_append]
    · exact List.forall_mem_append.mpr ⟨hwf', hwf⟩
    · exact List.forall_mem_cons.mpr
        ⟨⟨hbase, hsize, fun hm => ⟨buffer, hcontent, hlength hm⟩⟩, hfits⟩

/-- What `compute_mrtd` hashes is the stream of the reference pages. -/
theorem mrtdStream_pages {firmware : Bytes} {ramGib maxPerNodeGib : Option Int} {numaNodes : Int}
    {stream : Bytes} (h : mrtdStream firmware ramGib numaNodes maxPerNodeGib = .ok stream) :
    ∃ metadata banks pages, parseTdxMetadata firmware = .ok metadata ∧
      ramBanks ramGib numaNodes maxPerNodeGib = .ok banks ∧
      (∀ sec ∈ metadata.sections,
        SectionFits (sectionContent firmware banks metadata.sections) sec) ∧
      referencePages firmware ramGib numaNodes maxPerNodeGib = .ok pages ∧
      (∀ p ∈ pages, p.WellFormed) ∧ stream = pageStream pages := by
  simp only [mrtdStream, mrtdRegions, bind_eq_ok] at h
  obtain ⟨regions, ⟨banks, hbanks, hextract⟩, hmeasure⟩ := h
  obtain ⟨metadata, hmetadata, hregions⟩ := extractMaterialRegions_eq hextract
  obtain ⟨pages, hpages, rfl, hwf, hfits⟩ := measureRegions_pages hregions hmeasure
  refine ⟨metadata, banks, pages, hmetadata, hbanks, hfits, ?_, hwf, rfl⟩
  simp only [referencePages, hmetadata, hbanks, ok_bind]
  exact hpages

/-- **The MRTD stream is exact and uniquely decodable.** Whenever `compute_mrtd` returns, every section
is page-aligned and, if it has `EXTEND_MR`, filled by its content, and the bytes hashed are those of the
reference pages: per section in descriptor order and per page in address order one PAGE.ADD and, exactly
with `EXTEND_MR`, sixteen MR.EXTENDs whose chunks are the page's content. Two accepted inputs with one
stream have the same pages. -/
theorem mrtd_stream_exact (sha384 : Bytes → Bytes) {firmware value : Bytes}
    {ramGib maxPerNodeGib : Option Int} {numaNodes : Int}
    (h : computeMrtd sha384 firmware ramGib numaNodes maxPerNodeGib = .ok value) :
    ∃ metadata banks pages, parseTdxMetadata firmware = .ok metadata ∧
      ramBanks ramGib numaNodes maxPerNodeGib = .ok banks ∧
      (∀ sec ∈ metadata.sections,
        SectionFits (sectionContent firmware banks metadata.sections) sec) ∧
      referencePages firmware ramGib numaNodes maxPerNodeGib = .ok pages ∧
      (∀ p ∈ pages, ∀ c ∈ p.content,
        (GuestPage.chunkRecords p.address c).flatMap MeasureRecord.chunk = c ∧ c.length = pageSize) ∧
      mrtdStream firmware ramGib numaNodes maxPerNodeGib = .ok (pageStream pages) ∧
      value = sha384 (pageStream pages) ∧
      ∀ {firmware' : Bytes} {ramGib' maxPerNodeGib' : Option Int} {numaNodes' : Int},
        mrtdStream firmware' ramGib' numaNodes' maxPerNodeGib' = .ok (pageStream pages) →
        referencePages firmware' ramGib' numaNodes' maxPerNodeGib' = .ok pages := by
  simp only [computeMrtd, bind_eq_ok, pure_eq_ok] at h
  obtain ⟨stream, hstream, rfl⟩ := h
  obtain ⟨metadata, banks, pages, hmetadata, hbanks, hfits, hpages, hwf, rfl⟩ :=
    mrtdStream_pages hstream
  refine ⟨metadata, banks, pages, hmetadata, hbanks, hfits, hpages, fun p hp c hc => ?_, hstream, rfl,
    fun hstream' => ?_⟩
  · have hlen := (hwf p hp).length_content c hc
    exact ⟨GuestPage.flatMap_chunkRecords hlen, hlen⟩
  · obtain ⟨_, _, pages', _, _, _, hpages', hwf', heq⟩ := mrtdStream_pages hstream'
    rw [pageStream_injective hwf hwf' heq]
    exact hpages'

/-- A measured handover block, and one page that is only added. -/
def sampleMrtdFirmware : Bytes :=
  sampleFirmware [⟨0, 0, 0x809000, 0x1000, tdxSectionTdhob, tdxMetadataAttrExtendMr⟩,
    ⟨0, 0, 0x80F000, 0x1000, tdxSectionTempmem, 0⟩]

/-- Its stream is that of two pages, with seventeen records and one. -/
theorem mrtd_stream_exact_sample :
    ∃ pages, referencePages sampleMrtdFirmware none 1 none = .ok pages ∧
      mrtdStream sampleMrtdFirmware none 1 none = .ok (pageStream pages) ∧
      pages.map (fun p => (p.address, p.records.length)) = [(0x809000, 17), (0x80F000, 1)] := by
  obtain ⟨stream, hstream⟩ : ∃ stream, mrtdStream sampleMrtdFirmware none 1 none = .ok stream :=
    exists_of_isOk (by decide +kernel)
  obtain ⟨_, _, pages, _, _, _, hpages, _, hstream, _, _⟩ :=
    @mrtd_stream_exact (sampleHash 48) sampleMrtdFirmware (sampleHash 48 stream) none none 1
      (by rw [computeMrtd, hstream]; rfl)
  refine ⟨pages, hpages, hstream, ?_⟩
  have hcount : (referencePages sampleMrtdFirmware none 1 none).map
      (List.map fun p => (p.address, p.records.length)) = .ok [(0x809000, 17), (0x80F000, 1)] := by
    decide +kernel
  rw [hpages] at hcount
  exact Except.ok.inj hcount

end CvmMeasure.Tdx
