import CvmMeasure.Tdx.GuidTable

/-! # Assembled firmware images

An OVMF image as its build puts it together: a body with the TDX metadata somewhere inside, a GUID table
with the entry that points to it among any others, the footer and the reset vector. The parser walks the
table backwards and follows an offset that counts from the end of the image.

* **`GuidEntry`**: an entry of the table; **`FirmwareImage`**: all of an image;
* **`parseTdxMetadata_assemble`**: the sections an image was assembled with are the sections parsed. -/

namespace CvmMeasure.Tdx

open Binary Python

/-! ## Entries -/

/-- An entry of the GUID table. -/
structure GuidEntry where
  guid : Bytes
  data : Bytes
  length_guid : guid.length = guidSize

namespace GuidEntry

/-- The bytes of an entry: its data, its size and its GUID. -/
def encode (e : GuidEntry) : Bytes :=
  e.data ++ (leBytes 2 (e.data.length + fwGuidEntrySize) ++ uuidToEfiBytes e.guid)

/-- An entry has its size and GUID behind its data. -/
theorem length_encode (e : GuidEntry) : e.encode.length = e.data.length + fwGuidEntrySize := by
  rw [encode, List.length_append, List.length_append, leBytes_length,
    length_uuidToEfiBytes e.length_guid]
  rfl

/-- An entry of 16-bit size is a block. -/
theorem isBlock_encode {e : GuidEntry} (h : e.encode.length < 2 ^ 16) : IsBlock e.encode := by
  rw [length_encode] at h
  have hat : HasAt e.encode e.data.length (leBytes 2 (e.data.length + fwGuidEntrySize)) :=
    hasAt_middle _ _ _
  refine ⟨?_, ?_⟩
  · rw [length_encode]
    exact Nat.le_add_left _ _
  · rw [blockSize, length_encode, Nat.add_sub_cancel]
    exact hat.uintAt_eq h

/-- The GUID of an entry, read from its block. -/
theorem blockGuid_encode (e : GuidEntry) : blockGuid e.encode = e.guid := by
  have hguid := length_uuidToEfiBytes e.length_guid
  have hsplit : e.encode = (e.data ++ leBytes 2 (e.data.length + fwGuidEntrySize)) ++
      (uuidToEfiBytes e.guid ++ []) := by
    rw [encode, List.append_nil, List.append_assoc]
  have hstart : e.encode.length - guidSize
      = (e.data ++ leBytes 2 (e.data.length + fwGuidEntrySize)).length := by
    rw [length_encode, List.length_append, leBytes_length]
    unfold fwGuidEntrySize guidSize
    omega
  have hslice : slice e.encode (e.encode.length - guidSize) e.encode.length = uuidToEfiBytes e.guid := by
    rw [hstart]
    refine HasAt.slice_eq ?_ ?_
    · rw [hsplit]
      exact hasAt_middle _ _ _
    · rw [length_encode, List.length_append, leBytes_length, hguid]
      unfold fwGuidEntrySize guidSize
      omega
  rw [blockGuid, hslice, efiBytesToUuid_uuidToEfiBytes e.length_guid]

/-- Entries that fit a table together are its blocks. -/
theorem splits_flatMap {entries : List GuidEntry} (h : (entries.flatMap encode).length < 2 ^ 16) :
    Splits (entries.flatMap encode) (entries.map encode) := by
  refine ⟨by rw [List.flatMap], fun b hb => ?_⟩
  obtain ⟨e, he, rfl⟩ := List.mem_map.mp hb
  refine isBlock_encode (Nat.lt_of_le_of_lt ?_ h)
  obtain ⟨pre, post, rfl⟩ := List.append_of_mem he
  rw [List.flatMap_append, List.flatMap_cons, List.length_append, List.length_append]
  omega

end GuidEntry

/-- A block is found under its GUID if no block before it in the file has the same. -/
theorem get?_blockDict {pre post : List Bytes} {b : Bytes} (result : Dict Bytes Bytes)
    (h : ∀ b' ∈ pre, blockGuid b' ≠ blockGuid b) :
    (blockDict (pre ++ b :: post) result).get? (blockGuid b) = some b := by
  induction pre with
  | nil => exact Dict.get?_set_self _ _ _
  | cons b' pre ih =>
    show (Dict.set (blockDict (pre ++ b :: post) result) (blockGuid b') b').get? (blockGuid b) = some b
    rw [Dict.get?_set_of_ne (h b' List.mem_cons_self).symm]
    exact ih fun x hx => h x (List.mem_cons_of_mem b' hx)

/-! ## Section descriptors -/

/-- The fields of a descriptor fit their widths. -/
structure TdxMetadataSection.InRange (s : TdxMetadataSection) : Prop where
  dataOffset_lt : s.dataOffset < 2 ^ 32
  dataSize_lt : s.dataSize < 2 ^ 32
  memoryBase_lt : s.memoryBase < 2 ^ 64
  memorySize_lt : s.memorySize < 2 ^ 64
  sectionType_lt : s.sectionType < 2 ^ 32
  attributes_lt : s.attributes < 2 ^ 32

/-- A section takes 32 bytes, -/
theorem length_encode_section (s : TdxMetadataSection) : s.encode.length = tdxMetadataSectionSize := by
  simp [TdxMetadataSection.encode, tdxMetadataSectionSize]

/-- and several take 32 bytes each. -/
theorem length_flatMap_encode (sections : List TdxMetadataSection) :
    (sections.flatMap TdxMetadataSection.encode).length = sections.length * tdxMetadataSectionSize := by
  induction sections with
  | nil => rfl
  | cons s sections ih =>
    rw [List.flatMap_cons, List.length_append, length_encode_section, ih, List.length_cons,
      Nat.succ_mul, Nat.add_comm]

/-- A descriptor is read where its bytes stand. -/
theorem sectionAt_encode {d : Bytes} {pos : Nat} {s : TdxMetadataSection} (h : HasAt d pos s.encode)
    (hs : s.InRange) : sectionAt d pos = s := by
  simp only [TdxMetadataSection.encode, hasAt_append, List.length_append, leBytes_length,
    Nat.reduceAdd] at h
  obtain ⟨⟨⟨⟨⟨h1, h2⟩, h3⟩, h4⟩, h5⟩, h6⟩ := h
  rw [sectionAt, h1.uintAt_eq hs.dataOffset_lt, h2.uintAt_eq hs.dataSize_lt,
    h3.uintAt_eq hs.memoryBase_lt, h4.uintAt_eq hs.memorySize_lt, h5.uintAt_eq hs.sectionType_lt,
    h6.uintAt_eq hs.attributes_lt]

/-- An array of descriptors is read element by element. -/
theorem map_sectionAt {d : Bytes} {pos : Nat} {sections : List TdxMetadataSection}
    (h : HasAt d pos (sections.flatMap TdxMetadataSection.encode)) (hs : ∀ s ∈ sections, s.InRange) :
    (List.range sections.length).map (fun i => sectionAt d (pos + i * tdxMetadataSectionSize))
      = sections := by
  induction sections generalizing pos with
  | nil => rfl
  | cons s sections ih =>
    rw [List.flatMap_cons, hasAt_append, length_encode_section] at h
    have hrest := ih h.2 fun x hx => hs x (List.mem_cons_of_mem s hx)
    rw [List.length_cons, List.range_succ_eq_map, List.map_cons, Nat.zero_mul, Nat.add_zero,
      sectionAt_encode h.1 (hs s List.mem_cons_self), List.map_map]
    refine congrArg (s :: ·) ?_
    conv_rhs => rw [← hrest]
    refine List.map_congr_left fun i _ => ?_
    rw [Function.comp_apply, Nat.succ_mul, Nat.add_assoc, Nat.add_comm (i * _)]

/-! ## Images -/

/-- What an image is assembled from. -/
structure FirmwareImage where
  /-- The body in front of the metadata. -/
  before : Bytes
  /-- The length field of the metadata descriptor, which the parser does not read. -/
  descriptorLength : Nat
  sections : List TdxMetadataSection
  /-- The body behind the metadata. -/
  after : Bytes
  /-- The entries of the table in front of the offset entry. -/
  entriesBefore : List GuidEntry
  /-- The entries behind it. -/
  entriesAfter : List GuidEntry
  /-- The last bytes of the image. -/
  resetVector : Bytes

namespace FirmwareImage

/-- The metadata descriptor and its sections. -/
def descriptor (img : FirmwareImage) : Bytes :=
  leBytes 4 tdxMetadataMagic ++ (leBytes 4 img.descriptorLength ++ (leBytes 4 tdxMetadataVersion ++
    (leBytes 4 img.sections.length ++ img.sections.flatMap TdxMetadataSection.encode)))

/-- The distance from the metadata descriptor to the end of the image. -/
def metadataOffset (img : FirmwareImage) : Nat :=
  img.descriptor.length + img.after.length + ((img.entriesBefore.flatMap GuidEntry.encode).length + 22 +
    (img.entriesAfter.flatMap GuidEntry.encode).length) + fwGuidEntrySize + fwGuidTableEndOffset

/-- The entry that points to the metadata. -/
def offsetEntry (img : FirmwareImage) : GuidEntry where
  guid := tdxMetadataOffsetGuid
  data := leBytes 4 img.metadataOffset
  length_guid := by decide +kernel

/-- The entries of the table, in file order. -/
def entries (img : FirmwareImage) : List GuidEntry :=
  img.entriesBefore ++ img.offsetEntry :: img.entriesAfter

/-- The table in front of the footer. -/
def table (img : FirmwareImage) : Bytes := img.entries.flatMap GuidEntry.encode

/-- The footer: the size of the table with the footer, and the footer's GUID. -/
def footer (img : FirmwareImage) : Bytes :=
  leBytes 2 (img.table.length + fwGuidEntrySize) ++ uuidToEfiBytes fwGuidTableFooter

/-- The bytes of the image. -/
def assemble (img : FirmwareImage) : Bytes :=
  img.before ++ (uuidToEfiBytes tdxMetadataGuid ++ (img.descriptor ++ (img.after ++
    (img.table ++ (img.footer ++ img.resetVector)))))

/-- The fields fit their widths, the entries around the offset entry have GUIDs of their own, and the
reset vector its 32 bytes. -/
structure WellFormed (img : FirmwareImage) : Prop where
  sections_inRange : ∀ s ∈ img.sections, s.InRange
  guid_ne : ∀ e ∈ img.entriesBefore ++ img.entriesAfter, e.guid ≠ tdxMetadataOffsetGuid
  table_le : img.table.length + fwGuidEntrySize ≤ 65535
  metadataOffset_lt : img.metadataOffset < 2 ^ 32
  length_resetVector : img.resetVector.length = fwGuidTableEndOffset

/-- The offset entry has four bytes of data. -/
theorem length_table (img : FirmwareImage) :
    img.table.length = (img.entriesBefore.flatMap GuidEntry.encode).length + 22 +
      (img.entriesAfter.flatMap GuidEntry.encode).length := by
  have hentry : img.offsetEntry.encode.length = 22 := by
    rw [GuidEntry.length_encode, offsetEntry, leBytes_length]
    rfl
  rw [table, entries, List.flatMap_append, List.flatMap_cons, List.length_append, List.length_append,
    hentry, Nat.add_assoc]

/-- The footer takes as much as an empty entry. -/
theorem length_footer (img : FirmwareImage) : img.footer.length = fwGuidEntrySize := by
  rw [footer, List.length_append, leBytes_length, length_uuidToEfiBytes (by decide +kernel)]
  rfl

variable {img : FirmwareImage}

/-- The metadata offset is counted from the end of the image. -/
theorem WellFormed.length_assemble (h : img.WellFormed) :
    img.assemble.length = img.before.length + 16 + img.metadataOffset := by
  have hguid : (uuidToEfiBytes tdxMetadataGuid).length = 16 :=
    length_uuidToEfiBytes (by decide +kernel)
  simp only [assemble, List.length_append, hguid, length_table, length_footer, h.length_resetVector,
    metadataOffset]
  omega

/-- The footer stands behind the table. -/
theorem WellFormed.footerOffset_eq (h : img.WellFormed) : footerOffset img.assemble
    = (img.before ++ (uuidToEfiBytes tdxMetadataGuid ++ (img.descriptor ++ img.after))).length +
      img.table.length := by
  rw [footerOffset, assemble]
  simp only [List.length_append, length_footer, h.length_resetVector]
  omega

/-- The bytes of the image, up to the table, and from the table on. -/
theorem assemble_eq (img : FirmwareImage) : img.assemble =
    (img.before ++ (uuidToEfiBytes tdxMetadataGuid ++ (img.descriptor ++ img.after))) ++
      (img.table ++ (img.footer ++ img.resetVector)) := by
  simp only [assemble, List.append_assoc]

/-- The footer is found, and declares the table. -/
theorem WellFormed.hasFooter (h : img.WellFormed) :
    HasFooter img.assemble ∧ declaredLength img.assemble = img.table.length := by
  have hat : HasAt img.assemble (footerOffset img.assemble) img.footer := by
    rw [h.footerOffset_eq, ← List.length_append]
    rw [assemble_eq, ← List.append_assoc _ img.table]
    exact hasAt_middle _ _ _
  rw [footer, hasAt_append, leBytes_length] at hat
  have hsize : uintAt img.assemble (footerOffset img.assemble) 2
      = img.table.length + fwGuidEntrySize :=
    hat.1.uintAt_eq (Nat.lt_of_le_of_lt h.table_le (by decide))
  have hguid : efiBytesToUuid (slice img.assemble (footerOffset img.assemble + 2)
      (footerOffset img.assemble + 18)) = fwGuidTableFooter := by
    have hlength : (uuidToEfiBytes fwGuidTableFooter).length = 16 :=
      length_uuidToEfiBytes (by decide +kernel)
    rw [hat.2.slice_eq (by rw [hlength]), efiBytesToUuid_uuidToEfiBytes (by decide +kernel)]
  refine ⟨⟨?_, hguid, ?_⟩, ?_⟩
  · rw [h.length_assemble, metadataOffset]
    omega
  · rw [hsize]
    exact Nat.le_add_left _ _
  · rw [declaredLength, hsize, Nat.add_sub_cancel]

/-- The table is sliced out of the image. -/
theorem WellFormed.slicedTable_eq (h : img.WellFormed) : slicedTable img.assemble = img.table := by
  obtain ⟨-, hdeclared⟩ := h.hasFooter
  have hle : declaredLength img.assemble ≤ footerOffset img.assemble := by
    rw [hdeclared, h.footerOffset_eq]
    exact Nat.le_add_left _ _
  rw [slicedTable, if_pos hle, declaredTable, hdeclared, h.footerOffset_eq, Nat.add_sub_cancel,
    assemble_eq]
  exact (hasAt_middle _ _ _).slice_eq rfl

/-- The walk finds the offset entry. -/
theorem WellFormed.parseFwGuidTable_get? (h : img.WellFormed) : ∃ blocks,
    parseFwGuidTable img.assemble = .ok blocks ∧
      blocks.get? tdxMetadataOffsetGuid = some img.offsetEntry.encode := by
  have hsplits : Splits (slicedTable img.assemble) (img.entries.map GuidEntry.encode) := by
    rw [h.slicedTable_eq]
    refine GuidEntry.splits_flatMap ?_
    have hle := h.table_le
    show img.table.length < 2 ^ 16
    unfold fwGuidEntrySize at hle
    omega
  refine ⟨_, parseFwGuidTable_splits h.hasFooter.1 hsplits, ?_⟩
  have hguid : blockGuid img.offsetEntry.encode = tdxMetadataOffsetGuid :=
    GuidEntry.blockGuid_encode _
  rw [← hguid, entries, List.map_append, List.map_cons]
  refine get?_blockDict [] fun b hb => ?_
  obtain ⟨e, he, rfl⟩ := List.mem_map.mp hb
  rw [GuidEntry.blockGuid_encode, GuidEntry.blockGuid_encode]
  exact h.guid_ne e (List.mem_append_left _ he)

/-- The metadata GUID and the descriptor stand where the offset points. -/
theorem hasAt_descriptor (img : FirmwareImage) :
    HasAt img.assemble img.before.length (uuidToEfiBytes tdxMetadataGuid ++ img.descriptor) := by
  rw [assemble, ← List.append_assoc (uuidToEfiBytes _)]
  exact hasAt_middle _ _ _

/-- **The metadata is found through any GUID table.** Whatever the body around the metadata, the
entries before and behind the offset entry and their data, `_parse_tdx_metadata` returns the sections
the image was assembled with, in order. -/
theorem parseTdxMetadata_assemble (h : img.WellFormed) :
    parseTdxMetadata img.assemble = .ok { version := 1, sections := img.sections } := by
  obtain ⟨blocks, hparse, hget⟩ := h.parseFwGuidTable_get?
  have hlength := h.length_assemble
  have hguidLength : (uuidToEfiBytes tdxMetadataGuid).length = 16 :=
    length_uuidToEfiBytes (by decide +kernel)
  have hoffset : uintAt img.offsetEntry.encode 0 4 = img.metadataOffset := by
    refine HasAt.uintAt_eq ?_ h.metadataOffset_lt
    exact List.prefix_append _ _
  have hpos : img.assemble.length - img.metadataOffset - 16 = img.before.length := by omega
  obtain ⟨hatGuid, hatDescriptor⟩ := hasAt_append.mp img.hasAt_descriptor
  have hguid : efiBytesToUuid (slice img.assemble img.before.length (img.before.length + 16))
      = tdxMetadataGuid := by
    rw [hatGuid.slice_eq (by rw [hguidLength]), efiBytesToUuid_uuidToEfiBytes (by decide +kernel)]
  have hdescriptor : img.descriptor.length = 16 + img.sections.length * tdxMetadataSectionSize := by
    simp only [descriptor, List.length_append, leBytes_length, length_flatMap_encode]
    omega
  have hfits : img.descriptor.length + 50 ≤ img.metadataOffset := by
    unfold metadataOffset fwGuidEntrySize fwGuidTableEndOffset
    omega
  have hcount : img.sections.length < 2 ^ 32 := by
    have hlt := h.metadataOffset_lt
    unfold tdxMetadataSectionSize at hdescriptor
    omega
  -- the fields of the descriptor, and the sections behind them
  simp only [descriptor, hasAt_append, leBytes_length, hguidLength, Nat.add_assoc,
    Nat.reduceAdd] at hatDescriptor
  obtain ⟨hmagic, -, hversion, hatCount, hatSections⟩ := hatDescriptor
  have hsections := map_sectionAt hatSections h.sections_inRange
  unfold parseTdxMetadata
  rw [hparse, ok_bind, hget]
  dsimp only
  rw [hoffset, refuseIf_of_not (by omega), ok_bind, hpos, hguid, refuseIf_of_not (not_not.mpr rfl),
    ok_bind]
  simp only [tdxMetadataHeaderSize, Nat.add_assoc, Nat.reduceAdd]
  rw [refuseIf_of_not (by omega), ok_bind, hmagic.uintAt_eq (by decide),
    refuseIf_of_not (not_not.mpr rfl), ok_bind, hversion.uintAt_eq (by decide),
    refuseIf_of_not (not_not.mpr rfl), ok_bind, hatCount.uintAt_eq hcount,
    refuseIf_of_not (by omega), ok_bind]
  simp only [← Nat.add_assoc]
  rw [hsections]
  rfl

/-- Metadata between two bytes of body, and a foreign entry on each side of the offset entry. -/
def sample : FirmwareImage where
  before := [0xAA]
  descriptorLength := 0
  sections := [⟨0, 0, 0x809000, 0x1000, tdxSectionTdhob, 0⟩, ⟨0, 2, 0xFFC00000, 2, tdxSectionBfv, 1⟩]
  after := [0xBB]
  entriesBefore := [⟨List.replicate 16 0x11, [1, 2, 3], rfl⟩]
  entriesAfter := [⟨List.replicate 16 0x22, [], rfl⟩]
  resetVector := List.replicate 32 0x90

/-- The small image. -/
theorem parseTdxMetadata_assemble_sample : parseTdxMetadata sample.assemble =
    .ok { version := 1, sections := [⟨0, 0, 0x809000, 0x1000, 2, 0⟩, ⟨0, 2, 0xFFC00000, 2, 0, 1⟩] } := by
  have hsections : ∀ s ∈ sample.sections, s.InRange := by
    intro s hs
    rcases List.mem_pair.mp hs with rfl | rfl
    · exact ⟨by decide, by decide, by decide, by decide, by decide, by decide⟩
    · exact ⟨by decide, by decide, by decide, by decide, by decide, by decide⟩
  exact @parseTdxMetadata_assemble sample
    ⟨hsections, by decide +kernel, by decide +kernel, by decide +kernel, by decide +kernel⟩

end FirmwareImage

end CvmMeasure.Tdx
