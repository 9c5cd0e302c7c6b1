import CvmMeasure.Tdx.Metadata
import Mathlib.Data.List.Sort

/-! # The MRTD

`mrtd.py`: the TDX module's build-time measurement, replayed over the firmware's metadata sections.
SHA-384 is an arbitrary function; what it is fed is `mrtdStream`.

* **`ramRegions`**, **`unacceptedMemRanges`**, **`buildTdhob`**: the TD handover block for a RAM
  topology;
* **`extractMaterialRegions`**: the regions to measure, in metadata order;
* **`initMemoryRegion`**: the bytes one region feeds the hash, in one flat loop of 256-byte steps;
* **`computeMrtd`**: the hash of all of them. -/

namespace CvmMeasure.Tdx

open Binary Python

def pageSize : Nat := 4096
def mrExtendChunkSize : Nat := 256
def extensionBufferSize : Nat := 128

def gib : Nat := 0x40000000
def mib : Nat := 0x100000
def mmioHoleStart : Nat := 3 * gib
def mmioHoleEnd : Nat := 4 * gib

def efiHobTypeHandoff : Nat := 1
def efiHobTypeResourceDescriptor : Nat := 3
def efiHobTypeEndOfHobList : Nat := 0xFFFF
def efiHobHandoffTableVersion : Nat := 9
def bootWithFullConfiguration : Nat := 0
def efiResourceSystemMemory : Nat := 0
def efiResourceMemoryUnaccepted : Nat := 7
def efiResourceAttrPresent : Nat := 1
def efiResourceAttrInitialized : Nat := 2
def efiResourceAttrTested : Nat := 4
def efiResourceAttrNeedsEarlyAccept : Nat := 0x10000000
def tdhobBaseAttributes : Nat :=
  efiResourceAttrPresent ||| efiResourceAttrInitialized ||| efiResourceAttrTested

def sizeofHobGenericHeader : Nat := 8
def sizeofHobHandoffInfo : Nat := 56
def sizeofHobResourceDescriptor : Nat := 48

/-- `struct.pack("<Q", n)`. -/
def packQ (n : Nat) : Py Bytes := do
  refuseIf (n ≥ 2 ^ 64) (.structError "'Q' format requires 0 <= number <= 18446744073709551615")
  pure (leBytes 8 n)

/-- The length of the longest `bytes` object: `PY_SSIZE_T_MAX` less the object's header. -/
def maxBytesLength : Nat := 2 ^ 63 - 34

/-- `data.ljust(width, b"\x00")`, for data that is no longer than `width`. The width is converted to a C
`ssize_t` first, and then allocated; that there is memory for it is taken for granted. -/
def ljust (data : Bytes) (width : Nat) : Py Bytes := do
  refuseIf (width ≥ 2 ^ 63) (.overflowError "Python int too large to convert to C ssize_t")
  refuseIf (width > maxBytesLength) (.overflowError "byte string is too large")
  pure (zeroFill data width)

/-- Up to the longest `bytes` object, the data is filled with zeros. -/
theorem ljust_of_le {width : Nat} (h : width ≤ maxBytesLength) (data : Bytes) :
    ljust data width = .ok (zeroFill data width) := by
  have hlt : width < 2 ^ 63 := by
    unfold maxBytesLength at h
    omega
  rw [ljust, refuseIf_of_not (Nat.not_le_of_lt hlt), ok_bind, refuseIf_of_not (Nat.not_lt_of_le h), ok_bind]
  rfl

/-- Beyond it, `OverflowError` is raised. -/
theorem ljust_of_lt {width : Nat} (h : maxBytesLength < width) (data : Bytes) :
    ∃ message, ljust data width = .error (.overflowError message) := by
  unfold ljust
  by_cases hwidth : width ≥ 2 ^ 63
  · exact ⟨_, by rw [refuseIf_of hwidth, error_bind]⟩
  · exact ⟨_, by rw [refuseIf_of_not hwidth, ok_bind, refuseIf_of h, error_bind]⟩

/-- It fills with zeros up to the width, if a byte string can be that long. -/
theorem ljust_eq_ok {width : Nat} {data bs : Bytes} :
    ljust data width = .ok bs ↔ width ≤ maxBytesLength ∧ zeroFill data width = bs := by
  by_cases h : width ≤ maxBytesLength
  · rw [ljust_of_le h, Except.ok.injEq, and_iff_right h]
  · obtain ⟨message, herror⟩ := ljust_of_lt (Nat.lt_of_not_le h) data
    rw [herror]
    exact iff_of_false (fun hok => by cases hok) fun hok => h hok.1

/-! ## Guest physical regions -/

/-- `GuestPhysicalRegion`: a contiguous range of guest physical address space. -/
structure GuestPhysicalRegion where
  start : Nat
  length : Nat
  deriving DecidableEq, Repr

namespace GuestPhysicalRegion

/-- The property `end`. -/
def stop (g : GuestPhysicalRegion) : Nat := g.start + g.length

/-- `intersect`. -/
def intersect (g other : GuestPhysicalRegion) : GuestPhysicalRegion :=
  if g.start ≥ other.stop ∨ other.start ≥ g.stop then ⟨0, 0⟩
  else
    let s := max g.start other.start
    let e := min g.stop other.stop
    if e > s then ⟨s, e - s⟩ else ⟨0, 0⟩

end GuestPhysicalRegion

/-- `MaterialRegion`: a firmware region with its data, ready for measurement. -/
structure MaterialRegion where
  gpr : GuestPhysicalRegion
  hostBuffer : Bytes
  tdvfAttributes : Nat
  deriving DecidableEq, Repr

/-! ## The TD handover block -/

/-- `_write_hob_header`. -/
def hobHeader (hobType hobLength : Nat) : Bytes :=
  leBytes 2 hobType ++ leBytes 2 hobLength ++ leBytes 4 0

/-- `_write_handoff_info`. -/
def handoffInfo (endOfHobListAddr : Nat) : Py Bytes := do
  let endAddr ← packQ endOfHobListAddr
  pure (hobHeader efiHobTypeHandoff sizeofHobHandoffInfo
    ++ leBytes 4 efiHobHandoffTableVersion ++ leBytes 4 bootWithFullConfiguration
    ++ (leBytes 8 0 ++ leBytes 8 0 ++ leBytes 8 0 ++ leBytes 8 0 ++ endAddr))

/-- `_write_resource_descriptor`. -/
def resourceDescriptor (resourceType attributes : Nat) (gpr : GuestPhysicalRegion) : Py Bytes := do
  let start ← packQ gpr.start
  let length ← packQ gpr.length
  pure (hobHeader efiHobTypeResourceDescriptor sizeofHobResourceDescriptor
    ++ List.replicate 16 0x00 ++ leBytes 4 resourceType ++ leBytes 4 attributes ++ start ++ length)

/-- `_write_end_of_hob_list`. -/
def endOfHobList : Bytes := hobHeader efiHobTypeEndOfHobList sizeofHobGenericHeader

/-- The descriptors of several regions, with the attributes of each. -/
def resourceDescriptors (resourceType : Nat) (attributes : GuestPhysicalRegion → Nat) :
    List GuestPhysicalRegion → Py Bytes
  | [] => pure []
  | g :: gs => do
    let descriptor ← resourceDescriptor resourceType (attributes g) g
    let rest ← resourceDescriptors resourceType attributes gs
    pure (descriptor ++ rest)

/-- The attributes of an unaccepted region. -/
def unacceptedAttributes (disableEarlyAccept : Bool) (g : GuestPhysicalRegion) : Nat :=
  if g.stop ≤ 4 * gib ∨ disableEarlyAccept = false then
    tdhobBaseAttributes ||| efiResourceAttrNeedsEarlyAccept
  else tdhobBaseAttributes

/-- `_build_tdhob`: the EFI HOB list describing the memory layout, zero-filled to its region. -/
def buildTdhob (gpr : GuestPhysicalRegion)
    (privateResources unacceptedResources : List GuestPhysicalRegion) (disableEarlyAccept : Bool) :
    Py Bytes := do
  let numDescriptors := privateResources.length + unacceptedResources.length
  let hobSize := sizeofHobResourceDescriptor * numDescriptors
  let endOfHobOffset := sizeofHobHandoffInfo + hobSize
  let info ← handoffInfo (gpr.start + endOfHobOffset)
  let privates ←
    resourceDescriptors efiResourceSystemMemory (fun _ => tdhobBaseAttributes) privateResources
  let unaccepted ← resourceDescriptors efiResourceMemoryUnaccepted
    (unacceptedAttributes disableEarlyAccept) unacceptedResources
  let data := info ++ privates ++ unaccepted ++ endOfHobList
  refuseIf (data.length > gpr.length)
    (.valueError s!"TDHOB overflows region: {data.length} > {gpr.length}")
  ljust data gpr.length

/-! ## Unaccepted memory -/

/-- A private region that meets the bank `[curStart, curEnd)` intersects it up to beyond `curStart`. -/
theorem lt_stop_intersect {curStart curEnd : Nat} {priv : GuestPhysicalRegion}
    (hlt : curStart < curEnd) (hlength : priv.length ≠ 0) (hstop : ¬ priv.stop ≤ curStart)
    (hstart : ¬ priv.start ≥ curEnd) :
    curStart < (GuestPhysicalRegion.intersect ⟨curStart, curEnd - curStart⟩ priv).stop := by
  unfold GuestPhysicalRegion.stop at hstop
  unfold GuestPhysicalRegion.intersect GuestPhysicalRegion.stop
  simp only
  rw [if_neg (by omega), if_pos (by omega)]
  simp only
  omega

/-- The inner `while` of `_unaccepted_mem_ranges` for one RAM bank that ends at `curEnd`: the private
regions left, where the bank's uncovered part begins, and the ranges found so far. -/
def sweepPrivate (curEnd : Nat) (privs : List GuestPhysicalRegion) (curStart : Nat)
    (hlt : curStart < curEnd) (unaccepted : List GuestPhysicalRegion) :
    List GuestPhysicalRegion × Nat × List GuestPhysicalRegion :=
  match privs with
  | [] => ([], curStart, unaccepted)
  | priv :: rest =>
    if hlength : priv.length = 0 then sweepPrivate curEnd rest curStart hlt unaccepted
    else if hstop : priv.stop ≤ curStart then sweepPrivate curEnd rest curStart hlt unaccepted
    -- behind the bank: kept for the next one
    else if hstart : priv.start ≥ curEnd then (priv :: rest, curStart, unaccepted)
    else
      let intersection := GuestPhysicalRegion.intersect ⟨curStart, curEnd - curStart⟩ priv
      -- the part of the bank in front of the private region is a gap
      let unaccepted' :=
        if intersection.start > curStart then
          unaccepted ++ [⟨curStart, intersection.start - curStart⟩]
        else unaccepted
      if hbreak : intersection.stop ≥ curEnd then (priv :: rest, intersection.stop, unaccepted')
      else sweepPrivate curEnd (priv :: rest) intersection.stop (by omega) unaccepted'
  termination_by (privs.length, curEnd - curStart)
  decreasing_by
    · exact Prod.Lex.left _ _ (Nat.lt_succ_self _)
    · exact Prod.Lex.left _ _ (Nat.lt_succ_self _)
    · have := lt_stop_intersect hlt hlength hstop hstart
      exact Prod.Lex.right _ (by omega)

/-- The outer loop of `_unaccepted_mem_ranges`, over the sorted RAM banks. -/
def sweepBanks : List GuestPhysicalRegion → List GuestPhysicalRegion → List GuestPhysicalRegion →
    List GuestPhysicalRegion
  | [], _, unaccepted => unaccepted
  | ram :: banks, privs, unaccepted =>
    if hram : ram.length = 0 then sweepBanks banks privs unaccepted
    else
      let curEnd := ram.stop
      match sweepPrivate curEnd privs ram.start (Nat.lt_add_of_pos_right (Nat.pos_of_ne_zero hram))
        unaccepted with
      | (privs', curStart, unaccepted') =>
        -- what is left of the bank behind its private regions
        sweepBanks banks privs'
          (if curStart < curEnd then unaccepted' ++ [⟨curStart, curEnd - curStart⟩]
           else unaccepted')

/-- `sorted(regions, key=lambda g: g.start)`; the sort is stable. -/
def sortByStart (regions : List GuestPhysicalRegion) : List GuestPhysicalRegion :=
  regions.insertionSort fun g g' => g.start ≤ g'.start

/-- `_unaccepted_mem_ranges`: RAM ranges not covered by private firmware regions. -/
def unacceptedMemRanges (privateResources ramResources : List GuestPhysicalRegion) :
    List GuestPhysicalRegion :=
  sweepBanks (sortByStart ramResources) (sortByStart privateResources) []

/-! ## RAM topology -/

/-- The state of the NUMA loop of `ram_regions`. -/
structure RamLayout where
  regions : List GuestPhysicalRegion
  start : Nat
  taken : Int
  remaining : Int

/-- One round of the NUMA loop. -/
def placeNode (maxNode : Int) (layout : RamLayout) : RamLayout :=
  -- the first node is charged with the RAM below the MMIO hole
  let length := min (maxNode - layout.taken) layout.remaining
  if length > 0 then
    { regions := layout.regions ++ [⟨layout.start, length.toNat⟩]
      start := layout.start + length.toNat
      taken := 0
      remaining := layout.remaining - length }
  else { layout with taken := 0 }

/-- `ram_regions`: guest physical memory regions for a RAM topology. -/
def ramRegions (ramGib numaNodes : Int) (maxPerNodeGib : Option Int) :
    Py (List GuestPhysicalRegion) := do
  refuseIf (ramGib < 4)
    (.valueError
      s!"ram_gib must be >= 4 (got {ramGib}); TDX VMs require RAM above the 3 GiB MMIO hole")
  let maxGib := maxPerNodeGib.getD ramGib
  let initial : RamLayout :=
    { regions := [⟨0, mmioHoleStart⟩, ⟨4 * gib - 2 * mib, 2 * mib⟩]
      start := mmioHoleEnd
      taken := mmioHoleStart
      remaining := ramGib * gib - mmioHoleStart }
  let layout := (placeNode (maxGib * gib))^[numaNodes.toNat] initial
  refuseIf (layout.remaining > 0)
    (.valueError
      s!"{numaNodes} NUMA node(s) capped at {maxGib} GiB cannot hold {ramGib} GiB of RAM: {layout.remaining / gib} GiB unplaced. The first node also absorbs the {mmioHoleStart / gib} GiB below the MMIO hole.")
  pure layout.regions

/-! ## Region extraction -/

/-- `LaunchOptions`: which regions contribute to the digest. -/
structure LaunchOptions where
  measureAllRegions : Bool
  disableUnacceptedMemory : Bool
  guestRamBanks : List GuestPhysicalRegion

/-- The content a section has before the handover block is built. Under `measureAllRegions`, which `compute_mrtd`
never sets, memory for the zeros is taken for granted. -/
def sectionBuffer (firmware : Bytes) (opts : LaunchOptions) (sec : TdxMetadataSection) : Bytes :=
  if sec.sectionType = tdxSectionBfv ∨ sec.sectionType = tdxSectionCfv then
    slice firmware sec.dataOffset (sec.dataOffset + sec.dataSize)
  else if opts.measureAllRegions then List.replicate sec.memorySize 0x00
  else []

/-- The attributes a section is measured with. -/
def sectionAttributes (opts : LaunchOptions) (sec : TdxMetadataSection) : Nat :=
  if opts.measureAllRegions then sec.attributes ||| tdxMetadataAttrExtendMr else sec.attributes

/-- The guest range of a section. -/
def sectionGpr (sec : TdxMetadataSection) : GuestPhysicalRegion := ⟨sec.memoryBase, sec.memorySize⟩

/-- The loop of `_extract_material_regions`: the regions in metadata order, and the position of the
handover block among them. -/
def extractLoop (firmware : Bytes) (opts : LaunchOptions) :
    List TdxMetadataSection → List MaterialRegion → Option Nat →
      Py (List MaterialRegion × Option Nat)
  | [], regions, tdhobIndex => pure (regions, tdhobIndex)
  | sec :: secs, regions, tdhobIndex => do
    let region : MaterialRegion :=
      ⟨sectionGpr sec, sectionBuffer firmware opts sec, sectionAttributes opts sec⟩
    if sec.sectionType = tdxSectionBfv ∨ sec.sectionType = tdxSectionCfv ∨
        sec.sectionType = tdxSectionTempmem then
      extractLoop firmware opts secs (regions ++ [region]) tdhobIndex
    -- the content of the handover block is filled in at the end
    else if sec.sectionType = tdxSectionTdhob then do
      refuseIf tdhobIndex.isSome (.valueError "Multiple TDHOB sections found")
      extractLoop firmware opts secs (regions ++ [region]) (some regions.length)
    else throw (.valueError s!"Unknown TDX metadata section type: {sec.sectionType}")

/-- `_extract_material_regions`: all regions in the order the TDX module would measure them. -/
def extractMaterialRegions (firmware : Bytes) (opts : LaunchOptions) : Py (List MaterialRegion) := do
  let metadata ← parseTdxMetadata firmware
  let (regions, tdhobIndex) ← extractLoop firmware opts metadata.sections [] none
  match tdhobIndex with
  | none => throw (.valueError "No TDHOB section in TDX metadata")
  | some index =>
    let privateResources := metadata.sections.map sectionGpr
    let ramBanks := opts.guestRamBanks
    let unaccepted := if ramBanks = [] then [] else unacceptedMemRanges privateResources ramBanks
    let disableEarly := opts.disableUnacceptedMemory || !opts.measureAllRegions
    match regions[index]? with
    | none => throw (.indexError "list index out of range")
    | some tdhob => do
      -- the handover block describes all regions, its own included
      let tdhobBuf ← buildTdhob tdhob.gpr privateResources unaccepted disableEarly
      pure (regions.set index { tdhob with hostBuffer := tdhobBuf })

/-! ## The measurement -/

/-- `page_add`: what TDH.MEM.PAGE.ADD feeds the hash, a 128-byte header. -/
def pageAdd (gpa : Nat) : Py Bytes := do
  let addr ← packQ gpa
  pure (asciiBytes "MEM.PAGE.ADD" ++ List.replicate 4 0x00 ++ addr ++ List.replicate 104 0x00)

/-- `mr_extend`: what TDH.MR.EXTEND feeds the hash, a 128-byte header and the chunk in two halves. -/
def mrExtend (gpa : Nat) (chunk : Bytes) : Py Bytes := do
  -- `assert len(chunk) == MR_EXTEND_CHUNK_SIZE`
  refuseIf (chunk.length ≠ mrExtendChunkSize) .assertionError
  let addr ← packQ gpa
  pure (asciiBytes "MR.EXTEND" ++ List.replicate 7 0x00 ++ addr ++ List.replicate 104 0x00
    ++ chunk.take extensionBufferSize ++ chunk.drop extensionBufferSize)

/-- One round of the loop of `init_memory_region`, at byte `i` of the region. -/
def measureStep (region : MaterialRegion) (measureBytes : Bool) (i : Nat) : Py Bytes := do
  let gpa := region.gpr.start
  let page ← if i % pageSize = 0 then pageAdd (gpa + i) else pure []
  let chunk ←
    if measureBytes then mrExtend (gpa + i) (slice region.hostBuffer i (i + mrExtendChunkSize))
    else pure []
  pure (page ++ chunk)

/-- The loop of `init_memory_region` over the remaining offsets. -/
def measureLoop (region : MaterialRegion) (measureBytes : Bool) : List Nat → Py Bytes
  | [] => pure []
  | i :: is => do
    let bytes ← measureStep region measureBytes i
    let rest ← measureLoop region measureBytes is
    pure (bytes ++ rest)

/-- `range(0, stop, step)`. -/
def rangeStep (stop step : Nat) : List Nat :=
  (List.range ((stop + step - 1) / step)).map (· * step)

/-- The region is measured, not only added. -/
def measuresBytes (measureAllRegions : Bool) (region : MaterialRegion) : Bool :=
  region.tdvfAttributes &&& tdxMetadataAttrExtendMr != 0 || measureAllRegions

/-- `init_memory_region`: measure all pages in a region, in 256-byte steps. -/
def initMemoryRegion (measureAllRegions : Bool) (region : MaterialRegion) : Py Bytes := do
  let gpr := region.gpr
  let measureBytes := measuresBytes measureAllRegions region
  refuseIf (measureBytes ∧ gpr.length ≠ region.hostBuffer.length)
    (.valueError s!"Region length {gpr.length} != data length {region.hostBuffer.length}")
  refuseIf (gpr.start % pageSize ≠ 0)
    (.valueError s!"Region start 0x{hexUpper 0 gpr.start} not page-aligned")
  refuseIf (gpr.length % pageSize ≠ 0)
    (.valueError s!"Region length 0x{hexUpper 0 gpr.length} not page-aligned")
  measureLoop region measureBytes (rangeStep gpr.length mrExtendChunkSize)

/-- All regions, one after the other. -/
def measureRegions (measureAllRegions : Bool) : List MaterialRegion → Py Bytes
  | [] => pure []
  | region :: regions => do
    let bytes ← initMemoryRegion measureAllRegions region
    let rest ← measureRegions measureAllRegions regions
    pure (bytes ++ rest)

/-- The options of `compute_mrtd`. -/
def launchOptions (banks : List GuestPhysicalRegion) : LaunchOptions :=
  { measureAllRegions := false, disableUnacceptedMemory := false, guestRamBanks := banks }

/-- The RAM banks of a topology; none without a RAM size. -/
def ramBanks (ramGib : Option Int) (numaNodes : Int) (maxPerNodeGib : Option Int) :
    Py (List GuestPhysicalRegion) :=
  match ramGib with
  | none => pure []
  | some ramGib => ramRegions ramGib numaNodes maxPerNodeGib

/-- The regions `compute_mrtd` measures. -/
def mrtdRegions (firmware : Bytes) (ramGib : Option Int) (numaNodes : Int)
    (maxPerNodeGib : Option Int) : Py (List MaterialRegion) := do
  let banks ← ramBanks ramGib numaNodes maxPerNodeGib
  extractMaterialRegions firmware (launchOptions banks)

/-- The bytes `compute_mrtd` feeds SHA-384. -/
def mrtdStream (firmware : Bytes) (ramGib : Option Int) (numaNodes : Int)
    (maxPerNodeGib : Option Int) : Py Bytes := do
  let regions ← mrtdRegions firmware ramGib numaNodes maxPerNodeGib
  measureRegions false regions

/-- `compute_mrtd`: the MRTD of a firmware. -/
def computeMrtd (sha384 : Bytes → Bytes) (firmware : Bytes) (ramGib : Option Int) (numaNodes : Int)
    (maxPerNodeGib : Option Int) : Py Bytes := do
  let stream ← mrtdStream firmware ramGib numaNodes maxPerNodeGib
  pure (sha384 stream)

end CvmMeasure.Tdx
