import CvmMeasure.Tdx.UnacceptedMemory

/-! # RAM layouts

`ram_regions` hands guest RAM out to the NUMA nodes in one loop, whose first round is charged with the
3 GiB below the MMIO hole. Behind any number of rounds

* **`LayoutInvariant`**: the regions placed follow one another from 4 GiB on, and together with what
  remains they are the RAM asked for; so a layout that is returned conserves memory
  (`ramRegions_conserves`);
* **`remaining_layoutAfter_succ`**: what remains is known in closed form, so exactly which topologies
  are returned (`ramRegions_returns_iff`). A node cap below the 3 GiB is not among the refusals. -/

namespace CvmMeasure.Tdx

open Python Range

/-! ## The loop -/

/-- The regions below 4 GiB. -/
def lowRegions : List GuestPhysicalRegion := [⟨0, mmioHoleStart⟩, ⟨4 * gib - 2 * mib, 2 * mib⟩]

/-- The state the loop starts from. -/
def initialLayout (ramGib : Int) : RamLayout :=
  { regions := lowRegions
    start := mmioHoleEnd
    taken := mmioHoleStart
    remaining := ramGib * gib - mmioHoleStart }

/-- The state behind the rounds of the first nodes. -/
def layoutAfter (ramGib maxGib : Int) (nodes : Nat) : RamLayout :=
  (placeNode (maxGib * gib))^[nodes] (initialLayout ramGib)

/-- What the round of a node places. -/
def RamLayout.share (layout : RamLayout) (maxNode : Int) : Int :=
  min (maxNode - layout.taken) layout.remaining

/-- Before any node the layout is the first one. -/
theorem layoutAfter_zero (ramGib maxGib : Int) : layoutAfter ramGib maxGib 0 = initialLayout ramGib :=
  rfl

/-- Every node is placed behind those before it. -/
theorem layoutAfter_succ (ramGib maxGib : Int) (nodes : Nat) :
    layoutAfter ramGib maxGib (nodes + 1)
      = placeNode (maxGib * gib) (layoutAfter ramGib maxGib nodes) :=
  Function.iterate_succ_apply' _ _ _

/-- A round that places RAM. -/
theorem placeNode_of_pos {maxNode : Int} {layout : RamLayout} (h : 0 < layout.share maxNode) :
    placeNode maxNode layout =
      { regions := layout.regions ++ [⟨layout.start, (layout.share maxNode).toNat⟩]
        start := layout.start + (layout.share maxNode).toNat
        taken := 0
        remaining := layout.remaining - layout.share maxNode } :=
  if_pos h

/-- A round that places nothing. -/
theorem placeNode_of_nonpos {maxNode : Int} {layout : RamLayout} (h : ¬ 0 < layout.share maxNode) :
    placeNode maxNode layout = { layout with taken := 0 } :=
  if_neg h

/-- Behind a round nothing is charged any more. -/
theorem placeNode_taken (maxNode : Int) (layout : RamLayout) : (placeNode maxNode layout).taken = 0 := by
  by_cases h : 0 < layout.share maxNode
  · rw [placeNode_of_pos h]
  · rw [placeNode_of_nonpos h]

/-- It takes its share of what remains, -/
theorem placeNode_remaining (maxNode : Int) (layout : RamLayout) :
    (placeNode maxNode layout).remaining = layout.remaining - max 0 (layout.share maxNode) := by
  by_cases h : 0 < layout.share maxNode
  · rw [placeNode_of_pos h, max_eq_right h.le]
  · rw [placeNode_of_nonpos h, max_eq_left (not_lt.mp h), sub_zero]

/-- and the next one starts behind that share. -/
theorem placeNode_start (maxNode : Int) (layout : RamLayout) :
    ((placeNode maxNode layout).start : Int) = layout.start + max 0 (layout.share maxNode) := by
  by_cases h : 0 < layout.share maxNode
  · rw [placeNode_of_pos h, max_eq_right h.le]
    show ((layout.start + (layout.share maxNode).toNat : Nat) : Int) = _
    rw [Nat.cast_add, Int.toNat_of_nonneg h.le]
  · rw [placeNode_of_nonpos h, max_eq_left (not_lt.mp h), add_zero]

/-- When `ram_regions` returns, and what. -/
theorem ramRegions_eq_ok {ramGib numaNodes : Int} {maxPerNodeGib : Option Int}
    {regions : List GuestPhysicalRegion} :
    ramRegions ramGib numaNodes maxPerNodeGib = .ok regions ↔ 4 ≤ ramGib ∧
      (layoutAfter ramGib (maxPerNodeGib.getD ramGib) numaNodes.toNat).remaining ≤ 0 ∧
      regions = (layoutAfter ramGib (maxPerNodeGib.getD ramGib) numaNodes.toNat).regions := by
  simp only [ramRegions, bind_eq_ok, refuseIf_eq_ok, pure_eq_ok, not_lt]
  constructor
  · rintro ⟨_, hram, _, hremaining, rfl⟩
    exact ⟨hram, hremaining, rfl⟩
  · rintro ⟨hram, hremaining, rfl⟩
    exact ⟨(), hram, (), hremaining, rfl⟩

/-- `ram_regions` refuses with `ValueError` only. -/
theorem onlyValueError_ramRegions (ramGib numaNodes : Int) (maxPerNodeGib : Option Int) :
    OnlyValueError (ramRegions ramGib numaNodes maxPerNodeGib) :=
  (onlyValueError_refuseIf _ _).andThen fun _ =>
    (onlyValueError_refuseIf _ _).andThen fun _ => onlyValueError_pure _

/-! ## Memory is conserved -/

/-- **What holds behind every round**, with the regions placed above 4 GiB so far. -/
structure LayoutInvariant (ramGib maxGib : Int) (nodes : Nat) (above : List GuestPhysicalRegion)
    (layout : RamLayout) : Prop where
  regions_eq : layout.regions = lowRegions ++ above
  follows : Follows mmioHoleEnd (above.map GuestPhysicalRegion.toRange) layout.start
  count_le : above.length ≤ nodes
  bounded : ∀ r ∈ above, 0 < r.length ∧ (r.length : Int) ≤ maxGib * gib
  total : (layout.start : Int) + layout.remaining = ramGib * gib + mmioHoleEnd - mmioHoleStart
  taken_nonneg : 0 ≤ layout.taken

/-- The invariant holds at first. -/
theorem layoutInvariant_initial (ramGib maxGib : Int) :
    LayoutInvariant ramGib maxGib 0 [] (initialLayout ramGib) := by
  refine ⟨rfl, rfl, Nat.le_refl 0, by simp, ?_, Int.natCast_nonneg _⟩
  show (mmioHoleEnd : Int) + (ramGib * gib - mmioHoleStart) = _
  omega

/-- One round keeps the invariant. -/
theorem LayoutInvariant.step {ramGib maxGib : Int} {nodes : Nat} {above : List GuestPhysicalRegion}
    {layout : RamLayout} (h : LayoutInvariant ramGib maxGib nodes above layout) :
    ∃ above', LayoutInvariant ramGib maxGib (nodes + 1) above' (placeNode (maxGib * gib) layout) := by
  by_cases hpos : 0 < layout.share (maxGib * gib)
  · -- the node gets a region that starts where the last one ends
    rw [placeNode_of_pos hpos]
    have hshare : layout.share (maxGib * gib) ≤ maxGib * gib := by
      have := h.taken_nonneg
      unfold RamLayout.share
      omega
    refine ⟨above ++ [⟨layout.start, (layout.share (maxGib * gib)).toNat⟩], ?_, ?_, ?_, ?_, ?_, le_rfl⟩
    · show layout.regions ++ _ = _
      rw [h.regions_eq, List.append_assoc]
    · rw [List.map_append]
      exact h.follows.concat (Nat.le_add_right _ _)
    · rw [List.length_append, List.length_singleton]
      exact Nat.succ_le_succ h.count_le
    · intro r hr
      rcases List.mem_append.mp hr with hr | hr
      · exact h.bounded r hr
      · obtain rfl := List.mem_singleton.mp hr
        dsimp only
        omega
    · have := h.total
      push_cast
      omega
  · rw [placeNode_of_nonpos hpos]
    exact ⟨above, h.regions_eq, h.follows, h.count_le.trans (Nat.le_succ _), h.bounded, h.total, le_rfl⟩

/-- So every number of rounds does. -/
theorem exists_layoutInvariant (ramGib maxGib : Int) (nodes : Nat) :
    ∃ above, LayoutInvariant ramGib maxGib nodes above (layoutAfter ramGib maxGib nodes) := by
  induction nodes with
  | zero => exact ⟨[], layoutInvariant_initial ramGib maxGib⟩
  | succ nodes ih =>
    obtain ⟨above, h⟩ := ih
    rw [layoutAfter_succ]
    exact h.step

/-! ## What remains -/

/-- What a round leaves of a positive rest. -/
theorem sub_max_min {r x : Int} (h : 0 ≤ r) : r - max 0 (min x r) = max 0 (r - max 0 x) := by
  omega

/-- **The loop in closed form.** The first node takes what its cap leaves above the MMIO hole's RAM,
every further node its cap; caps that are negative take nothing. -/
theorem remaining_layoutAfter_succ {ramGib : Int} (h : 3 ≤ ramGib) (maxGib : Int) (nodes : Nat) :
    (layoutAfter ramGib maxGib (nodes + 1)).remaining
      = max 0 ((ramGib - 3 - max 0 (maxGib - 3) - nodes * max 0 maxGib) * gib) := by
  induction nodes with
  | zero =>
    rw [layoutAfter_succ, placeNode_remaining, layoutAfter_zero]
    simp only [RamLayout.share, initialLayout, mmioHoleStart, gib, Nat.cast_zero, zero_mul]
    omega
  | succ nodes ih =>
    rw [layoutAfter_succ, placeNode_remaining, RamLayout.share, layoutAfter_succ _ _ nodes,
      placeNode_taken, ← layoutAfter_succ, ih, sub_zero, sub_max_min (le_max_left _ _)]
    rw [Nat.cast_succ, add_one_mul]
    generalize (nodes : Int) * max 0 maxGib = placed
    simp only [gib]
    omega

/-- No node takes more than remains. -/
theorem remaining_nonneg {ramGib : Int} (h : 3 ≤ ramGib) (maxGib : Int) (nodes : Nat) :
    0 ≤ (layoutAfter ramGib maxGib nodes).remaining := by
  cases nodes with
  | zero =>
    show 0 ≤ ramGib * gib - mmioHoleStart
    simp only [mmioHoleStart, gib]
    omega
  | succ nodes =>
    rw [remaining_layoutAfter_succ h]
    exact le_max_left _ _

/-- **When a topology is returned.** Beyond the first node's rest, the further nodes must hold the RAM
above the MMIO hole. Nothing is asked of the first node's cap. -/
theorem ramRegions_returns_iff {ramGib : Int} (h : 4 ≤ ramGib) (numaNodes : Int)
    (maxPerNodeGib : Option Int) :
    (∃ regions, ramRegions ramGib numaNodes maxPerNodeGib = .ok regions) ↔ 1 ≤ numaNodes ∧
      ramGib - 3 ≤ max 0 (maxPerNodeGib.getD ramGib - 3)
        + (numaNodes - 1) * max 0 (maxPerNodeGib.getD ramGib) := by
  simp only [ramRegions_eq_ok, exists_and_left, exists_eq, and_true]
  rw [and_iff_right h]
  cases hnodes : numaNodes.toNat with
  | zero =>
    -- without a node all of the RAM above the hole remains
    rw [layoutAfter_zero]
    simp only [initialLayout, mmioHoleStart, gib]
    omega
  | succ nodes =>
    obtain rfl : numaNodes = nodes + 1 := by omega
    rw [remaining_layoutAfter_succ (by omega), add_sub_cancel_right]
    generalize (nodes : Int) * max 0 (maxPerNodeGib.getD ramGib) = placed
    simp only [gib]
    omega

/-! ## Conservation -/

/-- The regions of a layout, as ranges from 4 GiB on. -/
theorem LayoutInvariant.sum_length {ramGib maxGib : Int} {nodes : Nat}
    {above : List GuestPhysicalRegion} {layout : RamLayout}
    (h : LayoutInvariant ramGib maxGib nodes above layout) :
    mmioHoleEnd + (above.map GuestPhysicalRegion.length).sum = layout.start := by
  have hsum := h.follows.add_sum_size
  rw [List.map_map] at hsum
  have hsize : ((fun r : Nat × Nat => r.2 - r.1) ∘ GuestPhysicalRegion.toRange)
      = GuestPhysicalRegion.length := by
    funext r
    exact Nat.add_sub_cancel_left r.start r.length
  rwa [hsize] at hsum

/-- The first two regions lie below 4 GiB, and the others follow one another above it. -/
theorem LayoutInvariant.pairwise_disjointFrom {ramGib maxGib : Int} {nodes : Nat}
    {above : List GuestPhysicalRegion} {layout : RamLayout}
    (h : LayoutInvariant ramGib maxGib nodes above layout) :
    (lowRegions ++ above).Pairwise GuestPhysicalRegion.DisjointFrom := by
  apply List.pairwise_append.mpr
  refine ⟨List.pairwise_pair.mpr ?_, ?_, ?_⟩
  · exact GuestPhysicalRegion.disjointFrom_of_stop_le (by decide)
  · have hascending := h.follows.ascending fun r hr => by
      obtain ⟨g, hg, rfl⟩ := List.mem_map.mp hr
      exact GuestPhysicalRegion.start_lt_stop.mpr (h.bounded g hg).1.ne'
    exact (List.pairwise_map.mp hascending.ordered).imp GuestPhysicalRegion.disjointFrom_of_stop_le
  · intro g hg g' hg' a hin hin'
    have hlow : a < 4 * gib := by
      simp only [lowRegions, List.mem_cons, List.not_mem_nil, or_false] at hg
      rcases hg with rfl | rfl
      · exact hin.2.trans (by decide)
      · exact hin.2
    have habove : a ∈ covered (above.map GuestPhysicalRegion.toRange) :=
      mem_addresses.mpr ⟨g', hg', hin'⟩
    exact absurd (h.follows.mem_covered.mp habove).1 (Nat.not_le.mpr hlow)

/-- **A RAM layout conserves memory.** Whenever `ram_regions` returns, the result is
`[0, 3 GiB)`, `[4 GiB - 2 MiB, 4 GiB)` and at most one non-empty region per node, none above its cap,
that follow one another from 4 GiB on. All are disjoint, their lengths add up to the RAM asked for and
the 2 MiB, and they cover nothing else of the hole. -/
theorem ramRegions_conserves {ramGib numaNodes : Int} {maxPerNodeGib : Option Int}
    {regions : List GuestPhysicalRegion}
    (h : ramRegions ramGib numaNodes maxPerNodeGib = .ok regions) :
    ∃ above, regions = [⟨0, 3 * gib⟩, ⟨4 * gib - 2 * mib, 2 * mib⟩] ++ above ∧
      (above.length : Int) ≤ numaNodes ∧
      (∀ r ∈ above, 0 < r.length ∧ (r.length : Int) ≤ maxPerNodeGib.getD ramGib * gib) ∧
      (∃ stop, Follows (4 * gib) (above.map GuestPhysicalRegion.toRange) stop) ∧
      regions.Pairwise GuestPhysicalRegion.DisjointFrom ∧
      ((regions.map GuestPhysicalRegion.length).sum : Int) = ramGib * gib + 2 * mib ∧
      ∀ a : Nat, (∃ r ∈ regions, r.Contains a) ↔ a < 3 * gib ∨
        (4 * gib - 2 * mib ≤ a ∧ a < 4 * gib) ∨ (4 * gib ≤ a ∧ (a : Int) < (ramGib + 1) * gib) := by
  obtain ⟨hram, hremaining, rfl⟩ := ramRegions_eq_ok.mp h
  obtain ⟨above, hinv⟩ := exists_layoutInvariant ramGib (maxPerNodeGib.getD ramGib) numaNodes.toNat
  have hnodes := ((ramRegions_returns_iff hram numaNodes maxPerNodeGib).mp ⟨_, h⟩).1
  have hthree : 3 ≤ ramGib := by omega
  have hnonneg := remaining_nonneg hthree (maxPerNodeGib.getD ramGib) numaNodes.toNat
  have hcount := hinv.count_le
  -- nothing remains, so the regions above 4 GiB end where the RAM asked for does
  have hstop : ((layoutAfter ramGib (maxPerNodeGib.getD ramGib) numaNodes.toNat).start : Int)
      = (ramGib + 1) * gib := by
    have := hinv.total
    simp only [mmioHoleEnd, mmioHoleStart, gib] at this ⊢
    omega
  have habove : ∀ a, (∃ r ∈ above, r.Contains a) ↔
      4 * gib ≤ a ∧ (a : Int) < (ramGib + 1) * gib := by
    intro a
    rw [← mem_addresses, addresses, hinv.follows.mem_covered, ← hstop, Nat.cast_lt]
    rfl
  refine ⟨above, hinv.regions_eq, by omega, hinv.bounded, ⟨_, hinv.follows⟩, ?_, ?_, fun a => ?_⟩
  · rw [hinv.regions_eq]
    exact hinv.pairwise_disjointFrom
  · have hsum := hinv.sum_length
    rw [hinv.regions_eq, List.map_append, List.sum_append]
    simp only [lowRegions, mmioHoleStart, mmioHoleEnd, gib, mib, List.map_cons, List.map_nil,
      List.sum_cons, List.sum_nil] at hsum hstop ⊢
    omega
  · rw [hinv.regions_eq]
    simp only [lowRegions, List.mem_append, List.mem_cons, List.not_mem_nil, or_false, or_and_right,
      exists_or, exists_eq_left, habove, or_assoc]
    simp only [GuestPhysicalRegion.Contains, GuestPhysicalRegion.stop, mmioHoleStart, gib, mib]
    omega

/-- Two nodes of 8 GiB that hold 16 GiB. -/
theorem ramRegions_conserves_sample :
    ∃ above, [⟨0, 3 * gib⟩, ⟨4 * gib - 2 * mib, 2 * mib⟩, ⟨4 * gib, 5 * gib⟩, ⟨9 * gib, 8 * gib⟩]
        = [⟨0, 3 * gib⟩, ⟨4 * gib - 2 * mib, 2 * mib⟩] ++ above ∧
      (above.length : Int) ≤ 2 ∧
      (∀ r ∈ above, 0 < r.length ∧ (r.length : Int) ≤ 8 * gib) ∧
      ∃ stop, Follows (4 * gib) (above.map GuestPhysicalRegion.toRange) stop := by
  obtain ⟨above, heq, hcount, hbounded, hfollows, -⟩ :=
    ramRegions_conserves (by decide : ramRegions 16 2 (some 8) = .ok [⟨0, 3 * gib⟩,
      ⟨4 * gib - 2 * mib, 2 * mib⟩, ⟨4 * gib, 5 * gib⟩, ⟨9 * gib, 8 * gib⟩])
  exact ⟨above, heq, hcount, hbounded, hfollows⟩

/-! ## Node capacity -/

/-- The RAM a node holds: what its round places, and for the first node the RAM below the MMIO hole. -/
def nodeRam (ramGib maxGib : Int) (node : Nat) : Int :=
  (if node = 0 then (mmioHoleStart : Int) else 0)
    + ((layoutAfter ramGib maxGib (node + 1)).start - (layoutAfter ramGib maxGib node).start)

/-- Every node can hold its part: the first one the 3 GiB below the MMIO hole, all of them together the
RAM asked for. -/
def FitsNodes (ramGib numaNodes maxGib : Int) : Prop :=
  1 ≤ numaNodes ∧ 3 ≤ maxGib ∧ ramGib ≤ numaNodes * maxGib

instance (ramGib numaNodes maxGib : Int) : Decidable (FitsNodes ramGib numaNodes maxGib) :=
  inferInstanceAs (Decidable (_ ∧ _ ∧ _))

/-- **Node capacity is enforced exactly** for a topology: it is returned if and only if it fits, refused
with `ValueError` otherwise, and in a layout that is returned no node holds more than its cap. -/
structure CapacityEnforced (ramGib numaNodes : Int) (maxPerNodeGib : Option Int) : Prop where
  returns_iff : (∃ regions, ramRegions ramGib numaNodes maxPerNodeGib = .ok regions) ↔
    FitsNodes ramGib numaNodes (maxPerNodeGib.getD ramGib)
  refuses : ¬ FitsNodes ramGib numaNodes (maxPerNodeGib.getD ramGib) →
    ∃ message, ramRegions ramGib numaNodes maxPerNodeGib = .error (.valueError message)
  nodeRam_le : ∀ regions, ramRegions ramGib numaNodes maxPerNodeGib = .ok regions →
    ∀ node : Nat, node < numaNodes →
      nodeRam ramGib (maxPerNodeGib.getD ramGib) node ≤ maxPerNodeGib.getD ramGib * gib

/-- A node above whose cap nothing is placed. -/
theorem nodeRam_le {ramGib maxGib : Int} (h : 3 ≤ maxGib) (node : Nat) :
    nodeRam ramGib maxGib node ≤ maxGib * gib := by
  rw [nodeRam, layoutAfter_succ, placeNode_start, RamLayout.share]
  cases node with
  | zero =>
    rw [layoutAfter_zero]
    simp only [initialLayout, mmioHoleStart, gib, if_true]
    omega
  | succ node =>
    rw [layoutAfter_succ, placeNode_taken]
    simp only [Nat.succ_ne_zero, if_false, gib]
    omega

/-- With a cap of at least 3 GiB the closed form is the capacity of the nodes. -/
theorem fitsNodes_iff {ramGib numaNodes maxGib : Int} (h : 3 ≤ maxGib) :
    FitsNodes ramGib numaNodes maxGib ↔ 1 ≤ numaNodes ∧
      ramGib - 3 ≤ max 0 (maxGib - 3) + (numaNodes - 1) * max 0 maxGib := by
  have hmax : max 0 maxGib = maxGib := max_eq_right (by omega)
  have hrest : max 0 (maxGib - 3) = maxGib - 3 := max_eq_right (by omega)
  rw [FitsNodes, hmax, hrest, sub_one_mul, and_iff_right h]
  constructor
  · rintro ⟨hnodes, hle⟩
    exact ⟨hnodes, by omega⟩
  · rintro ⟨hnodes, hle⟩
    exact ⟨hnodes, by omega⟩

/-- Below 3 GiB a topology is returned as soon as the further nodes hold the RAM above the hole. -/
theorem closedForm_of_small {ramGib numaNodes maxGib : Int} (h : 4 ≤ ramGib) (hmax : ¬ 3 ≤ maxGib) :
    (1 ≤ numaNodes ∧ ramGib - 3 ≤ max 0 (maxGib - 3) + (numaNodes - 1) * max 0 maxGib) ↔
      1 < numaNodes ∧ ramGib ≤ 3 + (numaNodes - 1) * maxGib := by
  have hrest : max 0 (maxGib - 3) = 0 := max_eq_left (by omega)
  rw [hrest, zero_add]
  rcases le_or_gt maxGib 0 with hle | hpos
  · -- nodes without memory hold nothing
    rw [max_eq_left hle, mul_zero]
    constructor
    · rintro ⟨-, hzero⟩
      omega
    · rintro ⟨hnodes, hram⟩
      have : (numaNodes - 1) * maxGib ≤ 0 :=
        Int.mul_nonpos_of_nonneg_of_nonpos (by omega) hle
      omega
  · rw [max_eq_right hpos.le]
    constructor
    · rintro ⟨hnodes, hram⟩
      refine ⟨lt_of_le_of_ne hnodes ?_, by omega⟩
      rintro rfl
      rw [sub_self, zero_mul] at hram
      omega
    · rintro ⟨hnodes, hram⟩
      exact ⟨hnodes.le, by omega⟩

/-- **When node capacity is enforced**: exactly if the cap is at least 3 GiB, or there is at most one
node, or the nodes behind the first cannot hold the RAM above the hole. Otherwise the first node holds
its 3 GiB against its cap and nothing is refused. -/
theorem capacityEnforced_iff {ramGib : Int} (h : 4 ≤ ramGib) (numaNodes : Int)
    (maxPerNodeGib : Option Int) :
    CapacityEnforced ramGib numaNodes maxPerNodeGib ↔ 3 ≤ maxPerNodeGib.getD ramGib ∨ numaNodes ≤ 1 ∨
      3 + (numaNodes - 1) * maxPerNodeGib.getD ramGib < ramGib := by
  have hreturns := ramRegions_returns_iff h numaNodes maxPerNodeGib
  by_cases hmax : 3 ≤ maxPerNodeGib.getD ramGib
  · rw [← fitsNodes_iff hmax] at hreturns
    refine iff_of_true ⟨hreturns, fun hfits => ?_, fun _ _ node _ => nodeRam_le hmax node⟩
      (Or.inl hmax)
    exact (onlyValueError_ramRegions ramGib numaNodes maxPerNodeGib).ok_or_valueError.resolve_left
      fun hok => hfits (hreturns.mp hok)
  · rw [closedForm_of_small h hmax] at hreturns
    constructor
    · intro hcap
      by_contra hcond
      simp only [not_or, not_le, not_lt] at hcond
      have hfits := hcap.returns_iff.mp (hreturns.mpr hcond.2)
      exact hmax hfits.2.1
    · intro hcond
      have hrefused : ¬ ∃ regions, ramRegions ramGib numaNodes maxPerNodeGib = .ok regions := by
        rw [hreturns]
        rintro ⟨hnodes, hram⟩
        rcases hcond with hcond | hcond | hcond
        · exact hmax hcond
        · omega
        · omega
      refine ⟨iff_of_false hrefused fun hfits => hmax hfits.2.1, fun _ => ?_, ?_⟩
      · exact (onlyValueError_ramRegions ramGib numaNodes maxPerNodeGib).ok_or_valueError.resolve_left hrefused
      · intro regions hok
        exact absurd ⟨regions, hok⟩ hrefused

/-- Ten GiB on four nodes of two are one too many for the three nodes behind the first. -/
theorem capacityEnforced_iff_sample : CapacityEnforced 10 4 (some 2) :=
  (capacityEnforced_iff (by decide : (4 : Int) ≤ 10) 4 (some 2)).mpr (by decide)

/-- Nine GiB are not: the layout is returned, and its first node holds three. -/
theorem not_capacityEnforced_nine : ¬ CapacityEnforced 9 4 (some 2) ∧
    ramRegions 9 4 (some 2) = .ok [⟨0, 3 * gib⟩, ⟨4 * gib - 2 * mib, 2 * mib⟩, ⟨4 * gib, 2 * gib⟩,
      ⟨6 * gib, 2 * gib⟩, ⟨8 * gib, 2 * gib⟩] ∧
    nodeRam 9 2 0 = 3 * gib := by
  have hlayout : ramRegions 9 4 (some 2) = .ok [⟨0, 3 * gib⟩, ⟨4 * gib - 2 * mib, 2 * mib⟩,
      ⟨4 * gib, 2 * gib⟩, ⟨6 * gib, 2 * gib⟩, ⟨8 * gib, 2 * gib⟩] := by decide
  refine ⟨fun hcap => ?_, hlayout, by decide⟩
  exact absurd (hcap.returns_iff.mp ⟨_, hlayout⟩) (by decide)

end CvmMeasure.Tdx
