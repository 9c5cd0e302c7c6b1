import CvmMeasure.Range.Ascending
import CvmMeasure.Tdx.Mrtd

/-! # Unaccepted memory is RAM without private memory

`_unaccepted_mem_ranges` sweeps over the RAM banks with one index into the private regions that it
never takes back. It is a sweep over the set of addresses that lie in RAM and in no private region:
what the index has passed lies below the point the sweep has come to, so it no longer matters.

* **`sweepPrivate_swept`**: the inner loop leaves the sweep where the rest of its bank is free of
  private memory;
* **`sweepBanks_swept`**: the outer loop goes on to the next bank;
* **`unacceptedMemRanges_exact`**: the ranges returned are RAM without private memory. -/

namespace CvmMeasure.Tdx

open Range

namespace GuestPhysicalRegion

/-- The region as a range of addresses. -/
def toRange (g : GuestPhysicalRegion) : Nat × Nat := (g.start, g.stop)

/-- The address lies in the region. -/
def Contains (g : GuestPhysicalRegion) (a : Nat) : Prop := g.start ≤ a ∧ a < g.stop

instance (g : GuestPhysicalRegion) (a : Nat) : Decidable (g.Contains a) :=
  inferInstanceAs (Decidable (_ ∧ _))

/-- No address lies in both regions. -/
def DisjointFrom (g g' : GuestPhysicalRegion) : Prop := ∀ a, g.Contains a → ¬ g'.Contains a

/-- Being disjoint is symmetric. -/
theorem DisjointFrom.symm {g g' : GuestPhysicalRegion} (h : g.DisjointFrom g') : g'.DisjointFrom g :=
  fun a ha' ha => h a ha ha'

/-- A region ends no earlier than it starts, -/
theorem start_le_stop (g : GuestPhysicalRegion) : g.start ≤ g.stop := Nat.le_add_right _ _

/-- and later unless it is empty. -/
theorem start_lt_stop {g : GuestPhysicalRegion} : g.start < g.stop ↔ g.length ≠ 0 := by
  unfold stop
  omega

/-- Of regions sorted by their start the first starts first. -/
theorem head_start_le {first g : GuestPhysicalRegion} {rest : List GuestPhysicalRegion}
    (hsorted : (first :: rest).Pairwise fun g g' => g.start ≤ g'.start) (hg : g ∈ first :: rest) :
    first.start ≤ g.start := by
  rcases List.mem_cons.mp hg with rfl | hg
  · exact le_rfl
  · exact (List.pairwise_cons.mp hsorted).1 g hg

/-- Of two disjoint non-empty regions the one that starts first ends before the other starts. -/
theorem DisjointFrom.stop_le {g g' : GuestPhysicalRegion} (h : g.DisjointFrom g')
    (hle : g.start ≤ g'.start) (hne : g'.length ≠ 0) : g.stop ≤ g'.start := by
  by_contra hlt
  have hlt' := start_lt_stop.mpr hne
  exact h g'.start ⟨hle, Nat.lt_of_not_le hlt⟩ ⟨Nat.le_refl _, hlt'⟩

/-- A region that ends where the other has not started shares no address with it. -/
theorem disjointFrom_of_stop_le {g g' : GuestPhysicalRegion} (h : g.stop ≤ g'.start) :
    g.DisjointFrom g' :=
  fun _ hin hin' => absurd (h.trans hin'.1) (Nat.not_le.mpr hin.2)

/-- A private region that meets the rest of a bank cuts it where the region starts and ends. -/
theorem intersect_bank {curStart curEnd : Nat} {priv : GuestPhysicalRegion}
    (hlt : curStart < curEnd) (hlength : priv.length ≠ 0) (hstop : ¬ priv.stop ≤ curStart)
    (hstart : ¬ priv.start ≥ curEnd) :
    (intersect ⟨curStart, curEnd - curStart⟩ priv).start = max curStart priv.start ∧
      (intersect ⟨curStart, curEnd - curStart⟩ priv).stop = min curEnd priv.stop := by
  have hlt' := start_lt_stop.mpr hlength
  have hend : (⟨curStart, curEnd - curStart⟩ : GuestPhysicalRegion).stop = curEnd :=
    Nat.add_sub_cancel' hlt.le
  unfold intersect
  rw [hend, if_neg (not_or.mpr ⟨hstop, hstart⟩)]
  dsimp only
  rw [if_pos (by omega)]
  refine ⟨rfl, ?_⟩
  show max curStart priv.start + (min curEnd priv.stop - max curStart priv.start) = _
  omega

end GuestPhysicalRegion

/-- The addresses that lie in some of the regions. -/
def addresses (regions : List GuestPhysicalRegion) : Set Nat :=
  covered (regions.map GuestPhysicalRegion.toRange)

/-- An address of some regions lies in one of them: -/
theorem mem_addresses {regions : List GuestPhysicalRegion} {a : Nat} :
    a ∈ addresses regions ↔ ∃ g ∈ regions, g.Contains a := by
  simp only [addresses, mem_covered, List.mem_map, exists_exists_and_eq_and]
  rfl

/-- in the first one, or in another one. -/
@[simp] theorem mem_addresses_cons {g : GuestPhysicalRegion} {regions : List GuestPhysicalRegion}
    {a : Nat} : a ∈ addresses (g :: regions) ↔ g.Contains a ∨ a ∈ addresses regions :=
  mem_covered_cons

/-- A range found is emitted if it is not empty. -/
theorem map_toRange_emit (unaccepted : List GuestPhysicalRegion) (a b : Nat) :
    (if b > a then unaccepted ++ [⟨a, b - a⟩] else unaccepted).map GuestPhysicalRegion.toRange
      = emit (unaccepted.map GuestPhysicalRegion.toRange) a b := by
  unfold emit
  by_cases hlt : a < b
  · rw [if_pos hlt, if_pos hlt, List.map_append, List.map_singleton, GuestPhysicalRegion.toRange,
      GuestPhysicalRegion.stop, Nat.add_sub_cancel' hlt.le]
  · rw [if_neg hlt, if_neg hlt]

/-! ## One bank -/

section Bank

variable {S : Set Nat} {curEnd : Nat}

/-- Where the inner loop leaves the sweep: in its bank, whose rest belongs to `S`, and past no private
region that matters from there on. -/
structure BankSwept (S : Set Nat) (curEnd curStart : Nat) (privs : List GuestPhysicalRegion)
    (result : List GuestPhysicalRegion × Nat × List GuestPhysicalRegion) : Prop where
  swept : SweptBelow (result.2.2.map GuestPhysicalRegion.toRange) S result.2.1
  curStart_le : curStart ≤ result.2.1
  le_curEnd : result.2.1 ≤ curEnd
  rest_mem : ∀ x, result.2.1 ≤ x → x < curEnd → x ∈ S
  suffix : result.1 <:+ privs
  private_iff : ∀ x, result.2.1 ≤ x → (x ∈ addresses privs ↔ x ∈ addresses result.1)

/-- A private region none of whose addresses is left may be passed. -/
theorem BankSwept.pass {curStart : Nat} {priv : GuestPhysicalRegion}
    {privs : List GuestPhysicalRegion}
    {result : List GuestPhysicalRegion × Nat × List GuestPhysicalRegion}
    (h : BankSwept S curEnd curStart privs result) (hpriv : ∀ x, curStart ≤ x → ¬ priv.Contains x) :
    BankSwept S curEnd curStart (priv :: privs) result := by
  refine ⟨h.swept, h.curStart_le, h.le_curEnd, h.rest_mem, h.suffix.trans (List.suffix_cons _ _),
    fun x hx => ?_⟩
  rw [mem_addresses_cons, ← h.private_iff x hx, or_iff_right (hpriv x (h.curStart_le.trans hx))]

/-- A private region that meets the rest of the bank: what lies in front of it is a range of `S`, what
it covers is not. -/
theorem swept_past_private {curStart : Nat} {priv : GuestPhysicalRegion}
    {rest unaccepted : List GuestPhysicalRegion} (hlt : curStart < curEnd) (hlength : priv.length ≠ 0)
    (hstop : ¬ priv.stop ≤ curStart) (hstart : ¬ priv.start ≥ curEnd)
    (hsorted : (priv :: rest).Pairwise fun g g' => g.start ≤ g'.start)
    (hS : ∀ x, curStart ≤ x → x < curEnd → (x ∈ S ↔ x ∉ addresses (priv :: rest)))
    (hswept : SweptBelow (unaccepted.map GuestPhysicalRegion.toRange) S curStart) :
    SweptBelow (emit (unaccepted.map GuestPhysicalRegion.toRange) curStart (max curStart priv.start)) S
      (min curEnd priv.stop) := by
  have hlt' := GuestPhysicalRegion.start_lt_stop.mpr hlength
  have hgap : ∀ x, curStart ≤ x → x < max curStart priv.start → x ∈ S := by
    intro x hx hxp
    rw [hS x hx (by omega), mem_addresses]
    rintro ⟨g, hg, hin⟩
    have hle : priv.start ≤ g.start := GuestPhysicalRegion.head_start_le hsorted hg
    have := hin.1
    omega
  have hcovered : ∀ x, max curStart priv.start ≤ x → x < min curEnd priv.stop → x ∉ S := by
    intro x hx hxp
    rw [hS x (by omega) (by omega), not_not, mem_addresses_cons]
    exact Or.inl ⟨by omega, by omega⟩
  exact (hswept.emit (le_max_left _ _) hgap).skip (by omega) hcovered

/-- **The inner loop**, for private regions sorted by their start. -/
theorem sweepPrivate_swept (privs : List GuestPhysicalRegion) (curStart : Nat)
    (hlt : curStart < curEnd) (unaccepted : List GuestPhysicalRegion)
    (hsorted : privs.Pairwise fun g g' => g.start ≤ g'.start)
    (hS : ∀ x, curStart ≤ x → x < curEnd → (x ∈ S ↔ x ∉ addresses privs))
    (hswept : SweptBelow (unaccepted.map GuestPhysicalRegion.toRange) S curStart) :
    BankSwept S curEnd curStart privs (sweepPrivate curEnd privs curStart hlt unaccepted) := by
  fun_induction sweepPrivate curEnd privs curStart hlt unaccepted with
  | case1 curStart hlt unaccepted =>
    -- no private region left: the rest of the bank is free
    refine ⟨hswept, le_rfl, hlt.le, fun x hx hxe => ?_, List.suffix_rfl, fun x _ => Iff.rfl⟩
    rw [hS x hx hxe]
    simp [addresses]
  | case2 curStart hlt unaccepted priv rest hlength ih =>
    have hpriv : ∀ x, curStart ≤ x → ¬ priv.Contains x := by
      intro x _ hx
      exact absurd hlength (GuestPhysicalRegion.start_lt_stop.mp (hx.1.trans_lt hx.2))
    refine (ih (List.pairwise_cons.mp hsorted).2 (fun x hx hxe => ?_) hswept).pass hpriv
    rw [hS x hx hxe, mem_addresses_cons, or_iff_right (hpriv x hx)]
  | case3 curStart hlt unaccepted priv rest hlength hstop ih =>
    have hpriv : ∀ x, curStart ≤ x → ¬ priv.Contains x := by
      intro x hx hin
      exact absurd (hstop.trans hx) (Nat.not_le.mpr hin.2)
    refine (ih (List.pairwise_cons.mp hsorted).2 (fun x hx hxe => ?_) hswept).pass hpriv
    rw [hS x hx hxe, mem_addresses_cons, or_iff_right (hpriv x hx)]
  | case4 curStart hlt unaccepted priv rest hlength hstop hstart =>
    -- this region and all later ones start behind the bank
    refine ⟨hswept, le_rfl, hlt.le, fun x hx hxe => ?_, List.suffix_rfl, fun x _ => Iff.rfl⟩
    rw [hS x hx hxe, mem_addresses]
    rintro ⟨g, hg, hin⟩
    have hle : priv.start ≤ g.start := GuestPhysicalRegion.head_start_le hsorted hg
    exact absurd (hstart.le.trans (hle.trans hin.1)) (Nat.not_le.mpr hxe)
  | case5 curStart hlt unaccepted priv rest hlength hstop hstart inter unaccepted' hbreak =>
    -- the region reaches the end of the bank and is kept for the next one
    obtain ⟨hfrom, hto⟩ := GuestPhysicalRegion.intersect_bank hlt hlength hstop hstart
    have hpast := swept_past_private hlt hlength hstop hstart hsorted hS hswept
    rw [← map_toRange_emit, ← hfrom, ← hto] at hpast
    have hend : inter.stop = curEnd := by
      have : inter.stop = min curEnd priv.stop := hto
      omega
    refine ⟨?_, ?_, hend.le, ?_, List.suffix_rfl, fun x _ => Iff.rfl⟩
    · simpa only [unaccepted', dite_eq_ite] using hpast
    · show curStart ≤ inter.stop
      omega
    · intro x hx hxe
      exact absurd (hend.ge.trans hx) (Nat.not_le.mpr hxe)
  | case6 curStart hlt unaccepted priv rest hlength hstop hstart inter unaccepted' hbreak ih =>
    -- the bank goes on behind the region, which the next round passes
    obtain ⟨hfrom, hto⟩ := GuestPhysicalRegion.intersect_bank hlt hlength hstop hstart
    have hpast := swept_past_private hlt hlength hstop hstart hsorted hS hswept
    rw [← map_toRange_emit, ← hfrom, ← hto] at hpast
    have hle : curStart ≤ inter.stop := (lt_stop_intersect hlt hlength hstop hstart).le
    have hrest := ih hsorted (fun x hx hxe => hS x (hle.trans hx) hxe)
      (by simpa only [unaccepted', dite_eq_ite] using hpast)
    exact ⟨hrest.swept, hle.trans hrest.curStart_le, hrest.le_curEnd, hrest.rest_mem, hrest.suffix,
      hrest.private_iff⟩

end Bank

/-! ## All banks -/

/-- The banks that are not empty lie one behind the other. -/
def BanksOrdered (banks : List GuestPhysicalRegion) : Prop :=
  banks.Pairwise fun g g' => g.length ≠ 0 → g'.length ≠ 0 → g.stop ≤ g'.start

/-- **The outer loop**: from where the sweep has come to, `S` is the rest of RAM without the rest of the
private regions. -/
theorem sweepBanks_swept {S : Set Nat} {banks privs unaccepted : List GuestPhysicalRegion} {c : Nat}
    (hbanks : BanksOrdered banks) (hle : ∀ ram ∈ banks, ram.length ≠ 0 → c ≤ ram.start)
    (hsorted : privs.Pairwise fun g g' => g.start ≤ g'.start)
    (hS : ∀ x, c ≤ x → (x ∈ S ↔ x ∈ addresses banks ∧ x ∉ addresses privs))
    (hswept : SweptBelow (unaccepted.map GuestPhysicalRegion.toRange) S c) :
    Ascending ((sweepBanks banks privs unaccepted).map GuestPhysicalRegion.toRange) ∧
      ∀ x, x ∈ addresses (sweepBanks banks privs unaccepted) ↔ x ∈ S := by
  induction banks generalizing privs unaccepted c with
  | nil =>
    refine ⟨hswept.ascending, hswept.finish fun x hx hxS => ?_⟩
    have := ((hS x hx).mp hxS).1
    simp [addresses] at this
  | cons ram banks ih =>
    obtain ⟨hram, hbanks'⟩ := List.pairwise_cons.mp hbanks
    have hle' : ∀ g ∈ banks, g.length ≠ 0 → c ≤ g.start :=
      fun g hg => hle g (List.mem_cons_of_mem ram hg)
    rw [sweepBanks]
    by_cases hempty : ram.length = 0
    · -- an empty bank has no address
      rw [dif_pos hempty]
      refine ih hbanks' hle' hsorted (fun x hx => ?_) hswept
      have hno : ¬ ram.Contains x := by
        intro hin
        exact absurd hempty (GuestPhysicalRegion.start_lt_stop.mp (hin.1.trans_lt hin.2))
      rw [hS x hx, mem_addresses_cons, or_iff_right hno]
    · rw [dif_neg hempty]
      have hstart : c ≤ ram.start := hle ram List.mem_cons_self hempty
      -- no later bank reaches back into this one or in front of it
      have hlater : ∀ x, x < ram.stop → x ∉ addresses banks := by
        intro x hx hin
        obtain ⟨g, hg, hgx⟩ := mem_addresses.mp hin
        have hne := GuestPhysicalRegion.start_lt_stop.mp (hgx.1.trans_lt hgx.2)
        have := hram g hg hempty hne
        exact absurd (this.trans hgx.1) (Nat.not_le.mpr hx)
      have hfront : ∀ x, c ≤ x → x < ram.start → x ∉ S := by
        intro x hx hxs hxS
        rcases mem_addresses_cons.mp ((hS x hx).mp hxS).1 with hin | hin
        · exact absurd hin.1 (Nat.not_le.mpr hxs)
        · exact hlater x (hxs.trans_le ram.start_le_stop) hin
      have hbank : ∀ x, ram.start ≤ x → x < ram.stop → (x ∈ S ↔ x ∉ addresses privs) := by
        intro x hx hxs
        rw [hS x (hstart.trans hx), mem_addresses_cons]
        exact and_iff_right (Or.inl ⟨hx, hxs⟩)
      have hlt : ram.start < ram.stop := GuestPhysicalRegion.start_lt_stop.mpr hempty
      have hinner := sweepPrivate_swept privs ram.start hlt unaccepted hsorted hbank
        (hswept.skip hstart hfront)
      dsimp only
      generalize sweepPrivate ram.stop privs ram.start _ unaccepted = result at hinner ⊢
      obtain ⟨privs', curStart, unaccepted'⟩ := result
      obtain ⟨hswept', hge, hend, hrest, hsuffix, hprivate⟩ := hinner
      dsimp only at hswept' hge hend hrest hsuffix hprivate ⊢
      have hemit := hswept'.emit hend hrest
      rw [← map_toRange_emit] at hemit
      refine ih hbanks' (fun g hg hne => hram g hg hempty hne) (hsorted.sublist hsuffix.sublist)
        (fun x hx => ?_) hemit
      -- behind the bank only the later banks and the private regions left count
      have hno : ¬ ram.Contains x := fun hin => absurd hx (Nat.not_le.mpr hin.2)
      rw [hS x (by omega), mem_addresses_cons, or_iff_right hno, hprivate x (hend.trans hx)]

/-! ## The theorem -/

/-- Sorting keeps the regions, -/
theorem perm_sortByStart (regions : List GuestPhysicalRegion) : (sortByStart regions).Perm regions :=
  List.perm_insertionSort _ _

/-- `sorted` sorts by the start. -/
theorem pairwise_sortByStart (regions : List GuestPhysicalRegion) :
    (sortByStart regions).Pairwise fun g g' => g.start ≤ g'.start := by
  have : Std.Total fun g g' : GuestPhysicalRegion => g.start ≤ g'.start := ⟨fun g g' => Nat.le_total _ _⟩
  have : IsTrans GuestPhysicalRegion fun g g' => g.start ≤ g'.start := ⟨fun _ _ _ => Nat.le_trans⟩
  exact List.pairwise_insertionSort _ _

/-- and so their addresses. -/
theorem mem_addresses_sortByStart {regions : List GuestPhysicalRegion} {a : Nat} :
    a ∈ addresses (sortByStart regions) ↔ a ∈ addresses regions :=
  mem_covered_perm ((perm_sortByStart regions).map _)

/-- Disjoint banks lie one behind the other once they are sorted. -/
theorem banksOrdered_sortByStart {banks : List GuestPhysicalRegion}
    (h : banks.Pairwise GuestPhysicalRegion.DisjointFrom) : BanksOrdered (sortByStart banks) := by
  have hdisjoint : (sortByStart banks).Pairwise GuestPhysicalRegion.DisjointFrom :=
    h.perm (perm_sortByStart banks).symm fun hab => hab.symm
  apply (hdisjoint.and (pairwise_sortByStart banks)).imp
  rintro g g' ⟨hdisj, hle⟩ _ hne
  exact hdisj.stop_le hle hne

/-- **Unaccepted memory is exactly RAM without private memory.** For private regions in any order,
overlapping, nested or empty, and disjoint RAM banks in any order, the ranges returned are not empty,
strictly ascending and pairwise disjoint, and an address lies in one of them exactly if it lies in a
bank and in no private region. -/
theorem unacceptedMemRanges_exact (privateResources : List GuestPhysicalRegion)
    {ramResources : List GuestPhysicalRegion}
    (hbanks : ramResources.Pairwise GuestPhysicalRegion.DisjointFrom) :
    (∀ r ∈ unacceptedMemRanges privateResources ramResources, 0 < r.length) ∧
      ((unacceptedMemRanges privateResources ramResources).Pairwise fun r r' => r.stop ≤ r'.start) ∧
      (unacceptedMemRanges privateResources ramResources).Pairwise GuestPhysicalRegion.DisjointFrom ∧
      ∀ a, (∃ r ∈ unacceptedMemRanges privateResources ramResources, r.Contains a) ↔
        (∃ ram ∈ ramResources, ram.Contains a) ∧ ¬ ∃ priv ∈ privateResources, priv.Contains a := by
  -- the sweep starts at address 0 with nothing put out
  have hstart : SweptBelow (([] : List GuestPhysicalRegion).map GuestPhysicalRegion.toRange)
      {x | x ∈ addresses ramResources ∧ x ∉ addresses privateResources} 0 :=
    SweptBelow.start fun _ _ => Nat.zero_le _
  have hS : ∀ x, 0 ≤ x → (x ∈ {x | x ∈ addresses ramResources ∧ x ∉ addresses privateResources} ↔
      x ∈ addresses (sortByStart ramResources) ∧ x ∉ addresses (sortByStart privateResources)) := by
    intro x _
    rw [mem_addresses_sortByStart, mem_addresses_sortByStart]
    rfl
  obtain ⟨hascending, hmem⟩ := sweepBanks_swept (banksOrdered_sortByStart hbanks)
    (fun _ _ _ => Nat.zero_le _) (pairwise_sortByStart privateResources) hS hstart
  have hordered := List.pairwise_map.mp hascending.ordered
  refine ⟨fun r hr => ?_, hordered, hordered.imp GuestPhysicalRegion.disjointFrom_of_stop_le,
    fun a => ?_⟩
  · have hne := hascending.nonempty r.toRange (List.mem_map_of_mem hr)
    exact Nat.pos_of_ne_zero (GuestPhysicalRegion.start_lt_stop.mp hne)
  · rw [← mem_addresses, ← mem_addresses, ← mem_addresses]
    exact hmem a

/-- Two banks out of order, a private region across the gap between them, one nested in it and an
empty one. -/
def samplePrivate : List GuestPhysicalRegion := [⟨0x40, 0x200⟩, ⟨0x10, 0x8⟩, ⟨0x50, 0x4⟩, ⟨0x12, 0⟩]

def sampleBanks : List GuestPhysicalRegion := [⟨0x100, 0x300⟩, ⟨0, 0x80⟩]

/-- Two addresses of the small memory. -/
theorem unacceptedMemRanges_exact_sample :
    (∃ r ∈ unacceptedMemRanges samplePrivate sampleBanks, r.Contains 0x300) ∧
      ¬ ∃ r ∈ unacceptedMemRanges samplePrivate sampleBanks, r.Contains 0x50 := by
  have hbanks : sampleBanks.Pairwise GuestPhysicalRegion.DisjointFrom :=
    List.pairwise_pair.mpr (GuestPhysicalRegion.disjointFrom_of_stop_le (by decide)).symm
  obtain ⟨-, -, -, hexact⟩ := unacceptedMemRanges_exact samplePrivate hbanks
  exact ⟨(hexact 0x300).mpr (by decide), fun hr => absurd ((hexact 0x50).mp hr) (by decide)⟩

end CvmMeasure.Tdx
