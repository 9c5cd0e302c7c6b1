import CvmMeasure.AzureSnp.ComputeAll
import CvmMeasure.Hash.Commitment
import CvmMeasure.Tdx.Initdata
import CvmMeasure.Tdx.Rtmr0Slots

/-! # What an initdata register binds

The document a guest is started with reaches one register, RTMR[3] of a TD or PCR 8 of a vTPM, which is
extended with its digest once, or not at all. Either register can also be given by value, for a guest whose
document is not at hand.

* **`Extends`**, `Extends.binding`: a register that is extended at most once, and what it binds;
* `Rtmr3Digest`, `Pcr8Digest`: what the platforms extend it with;
* **`computeAll_givenRtmr3`**, **`computeAll_givenPcr8`**: how it is given matters to no other register. -/

namespace CvmMeasure

open Binary Python Hash

/-! ## One extend -/

/-- What an initdata register is extended with: the digest of a document, if there is one. -/
inductive Extends (digestOf : Bytes → Bytes → Prop) : Option Bytes → List Bytes → Prop
  | without : Extends digestOf none []
  | document {data digest : Bytes} (h : digestOf data digest) : Extends digestOf (some data) [digest]

/-- Two different documents with one digest. -/
def SameDigest (digestOf : Bytes → Bytes → Prop) (initdata initdata' : Option Bytes) : Prop :=
  ∃ data data' digest, initdata = some data ∧ initdata' = some data' ∧ data ≠ data' ∧
    digestOf data digest ∧ digestOf data' digest

section

variable {digestOf : Bytes → Bytes → Prop} {initdata initdata' : Option Bytes} {ds ds' : List Bytes}

/-- One digest comes from one document, or from two with the same digest. -/
theorem Extends.eq_or_sameDigest (h : Extends digestOf initdata ds) (h' : Extends digestOf initdata' ds) :
    initdata = initdata' ∨ SameDigest digestOf initdata initdata' := by
  cases h with
  | without =>
    cases h'
    exact Or.inl rfl
  | @document data digest hdata =>
    cases h' with
    | @document data' _ hdata' =>
      by_cases hne : data = data'
      · exact Or.inl (congrArg some hne)
      · exact Or.inr ⟨data, data', digest, rfl, rfl, hne, hdata, hdata'⟩

/-- **A register binds the document**, and that there is one. -/
theorem Extends.binding {H : Bytes → Bytes} {init : Bytes} {w : Nat} (hH : ∀ x, (H x).length = w)
    (hinit : init.length = w) (h : Extends digestOf initdata ds) (h' : Extends digestOf initdata' ds')
    (heq : replay H init ds = replay H init ds') :
    UpTo H init (replayInputs H init ds ++ replayInputs H init ds')
      (initdata = initdata' ∨ SameDigest digestOf initdata initdata') := by
  refine (chain_binding hH hinit heq).imp fun hds => ?_
  subst hds
  exact h.eq_or_sameDigest h'

end

section

variable (hashNew : String → Bytes → Bytes)

/-- RTMR[3] takes the digest of a document that declares SHA-384. -/
def Rtmr3Digest (data digest : Bytes) : Prop :=
  Initdata.parseAlgorithm data = .ok Tdx.tdxAlgorithm ∧ digest = hashNew Tdx.tdxAlgorithm data

/-- PCR 8 takes the first bytes of the digest, under whatever algorithm the document declares. -/
def Pcr8Digest (data digest : Bytes) : Prop :=
  ∃ name, Initdata.parseAlgorithm data = .ok name ∧ AzureSnp.sha256Size ≤ (hashNew name data).length ∧
    digest = (hashNew name data).take AzureSnp.sha256Size

end

section

variable {hashNew : String → Bytes → Bytes} {data : Bytes} {value : String}

/-- RTMR[3] is extended with the digest of the document, once. -/
theorem initdataRtmr3_eq_ok {sha384 : Bytes → Bytes} : Tdx.initdataRtmr3 sha384 hashNew data = .ok value ↔
    ∃ digest, Rtmr3Digest hashNew data digest ∧ value = hex (replay sha384 Tdx.zeroRtmr [digest]) := by
  simp only [Tdx.initdataRtmr3, Tdx.computeInitdataDigest, Initdata.computeDigest, Initdata.checkRequired,
    bind_eq_ok, refuseIf_eq_ok, not_not, pure_eq_ok]
  constructor
  · rintro ⟨_, ⟨_, hname, _, rfl, rfl⟩, rfl⟩
    exact ⟨_, ⟨hname, rfl⟩, rfl⟩
  · rintro ⟨_, ⟨hname, rfl⟩, rfl⟩
    exact ⟨_, ⟨_, hname, (), rfl, rfl⟩, rfl⟩

/-- Without a value, PCR 8 is extended with the digest of the document, or not at all. -/
theorem resolvePcr8_eq_ok {sha256 : Bytes → Bytes} {initdata : Option Bytes} :
    AzureSnp.resolvePcr8 sha256 hashNew initdata none = .ok value ↔
      ∃ ds, Extends (Pcr8Digest hashNew) initdata ds ∧ value = hex (replay sha256 AzureSnp.zeroPcr ds) := by
  -- without a value beside it, the document is what counts
  have hsole : ¬ (initdata.isSome ∧ (none : Option String).isSome) := fun hboth => absurd hboth.2 (by decide)
  unfold AzureSnp.resolvePcr8
  rw [bind_eq_ok]
  simp only [exists_const, refuseIf_eq_ok, and_iff_right hsole]
  cases initdata with
  | none =>
    constructor
    · rintro ⟨⟩
      exact ⟨[], Extends.without, rfl⟩
    · rintro ⟨_, ⟨⟩, rfl⟩
      rfl
  | some data =>
    simp only [AzureSnp.computePcr8, Initdata.computeDigest, Initdata.checkRequired, bind_eq_ok, refuseIf_eq_ok,
      not_lt, pure_eq_ok]
    constructor
    · rintro ⟨_, ⟨name, hname, _, -, rfl⟩, _, hlen, rfl⟩
      exact ⟨_, Extends.document ⟨name, hname, hlen, rfl⟩, rfl⟩
    · rintro ⟨ds, hds, rfl⟩
      cases hds with
      | document h =>
        obtain ⟨name, hname, hlen, rfl⟩ := h
        exact ⟨_, ⟨name, hname, (), trivial, rfl⟩, (), hlen, rfl⟩

end

/-! ## Registers and how they are given -/

section

variable {sha384 : Bytes → Bytes} {firmware uki : Bytes} {baseline : Tdx.Baseline} {ramGib numaNodes : Int}
  {maxPerNodeGib : Option Int} {rtmr3Hex gptDigestHex : Option String} {regs regs' : Tdx.ComputedRegisters}

/-- **RTMR[3] is the only register that depends on how it is given.** -/
theorem computeAll_givenRtmr3
    (h : Tdx.computeAll sha384 firmware uki baseline ramGib numaNodes maxPerNodeGib rtmr3Hex gptDigestHex
      = .ok regs) (rtmr3Hex' : Option String) :
    Tdx.computeAll sha384 firmware uki baseline ramGib numaNodes maxPerNodeGib rtmr3Hex' gptDigestHex = .ok regs' ↔
      ∃ raw, Tdx.givenRtmr3 rtmr3Hex' = .ok raw ∧ regs' = { regs with rtmr3 := hex raw } := by
  simp only [Tdx.computeAll, bind_eq_ok, pure_eq_ok] at h ⊢
  obtain ⟨_, hverify, _, -, mrtd, hmrtd, rtmr0, hrtmr0, rtmr1, hrtmr1, rtmr2, hrtmr2, rfl⟩ := h
  constructor
  · rintro ⟨_, -, raw, hraw, mrtd', hmrtd', rtmr0', hrtmr0', rtmr1', hrtmr1', rtmr2', hrtmr2', rfl⟩
    obtain rfl := ok_unique hmrtd hmrtd'
    obtain rfl := ok_unique hrtmr0 hrtmr0'
    obtain rfl := ok_unique hrtmr1 hrtmr1'
    obtain rfl := ok_unique hrtmr2 hrtmr2'
    exact ⟨raw, hraw, rfl⟩
  · rintro ⟨raw, hraw, rfl⟩
    exact ⟨(), hverify, raw, hraw, mrtd, hmrtd, rtmr0, hrtmr0, rtmr1, hrtmr1, rtmr2, hrtmr2, rfl⟩

/-- RTMR[3], whichever way it was given. -/
theorem rtmr3_eq_hex
    (h : Tdx.computeAll sha384 firmware uki baseline ramGib numaNodes maxPerNodeGib rtmr3Hex gptDigestHex
      = .ok regs) :
    ∃ raw, Tdx.givenRtmr3 rtmr3Hex = .ok raw ∧ raw.length = Tdx.sha384Size ∧ regs.rtmr3 = hex raw := by
  obtain ⟨raw, hraw, hregs⟩ := (computeAll_givenRtmr3 h rtmr3Hex).mp h
  refine ⟨raw, hraw, ?_, congrArg Tdx.ComputedRegisters.rtmr3 hregs⟩
  cases rtmr3Hex with
  | none =>
    obtain rfl := pure_eq_ok.mp hraw
    exact List.length_replicate ..
  | some value => exact (Tdx.digestFromHex_eq_ok.mp hraw).2

end

section

variable {sha256 : Bytes → Bytes} {hashNew : String → Bytes → Bytes} {uki gpt : Bytes} {initdata : Option Bytes}
  {pcr8Hex : Option String} {pcrs pcrs' : AzureSnp.ComputedPcrs} {pcr8 value : String}

/-- **PCR 8 is the only register that depends on how it is given.** -/
theorem computeAll_givenPcr8 (h : AzureSnp.computeAll sha256 hashNew uki gpt initdata pcr8Hex = .ok pcrs)
    (initdata' : Option Bytes) (pcr8Hex' : Option String) :
    AzureSnp.computeAll sha256 hashNew uki gpt initdata' pcr8Hex' = .ok pcrs' ↔
      ∃ pcr8, AzureSnp.resolvePcr8 sha256 hashNew initdata' pcr8Hex' = .ok pcr8 ∧
        pcrs' = { pcrs with pcr8 := pcr8 } := by
  simp only [AzureSnp.computeAll, bind_eq_ok, pure_eq_ok] at h ⊢
  obtain ⟨pcr4, hpcr4, _, -, pcr9, hpcr9, pcr11, hpcr11, rfl⟩ := h
  constructor
  · rintro ⟨pcr4', hpcr4', pcr8, hpcr8, pcr9', hpcr9', pcr11', hpcr11', rfl⟩
    obtain rfl := ok_unique hpcr4 hpcr4'
    obtain rfl := ok_unique hpcr9 hpcr9'
    obtain rfl := ok_unique hpcr11 hpcr11'
    exact ⟨pcr8, hpcr8, rfl⟩
  · rintro ⟨pcr8, hpcr8, rfl⟩
    exact ⟨pcr4, hpcr4, pcr8, hpcr8, pcr9, hpcr9, pcr11, hpcr11, rfl⟩

/-- `pcr8_hex`, without a document beside it. -/
theorem resolvePcr8_given_eq_ok :
    AzureSnp.resolvePcr8 sha256 hashNew none (some value) = .ok pcr8 ↔
      ∃ raw, fromHex? value = some raw ∧ raw.length = AzureSnp.sha256Size ∧ pcr8 = hex raw := by
  have hsole : ¬ ((none : Option Bytes).isSome ∧ (some value).isSome) := fun hboth => absurd hboth.1 (by decide)
  unfold AzureSnp.resolvePcr8 AzureSnp.digestFromHex
  rw [bind_eq_ok]
  simp only [exists_const, refuseIf_eq_ok, and_iff_right hsole]
  cases fromHex? value with
  | none =>
    refine iff_of_false throw_ne_ok ?_
    rintro ⟨_, h, -⟩
    cases h
  | some bs =>
    simp only [bind_eq_ok, refuseIf_eq_ok, not_not, pure_eq_ok, exists_const, Option.some.injEq]
    constructor
    · rintro ⟨_, ⟨hlen, rfl⟩, rfl⟩
      exact ⟨_, rfl, hlen, rfl⟩
    · rintro ⟨_, rfl, hlen, rfl⟩
      exact ⟨_, ⟨hlen, rfl⟩, rfl⟩

/-- PCR 8 is hexadecimal, whichever way it was given, and has the width of the hash. -/
theorem pcr8_eq_hex (h : AzureSnp.resolvePcr8 sha256 hashNew initdata pcr8Hex = .ok pcr8) :
    ∃ raw, pcr8 = hex raw ∧
      ((∀ x, (sha256 x).length = AzureSnp.sha256Size) → raw.length = AzureSnp.sha256Size) := by
  cases pcr8Hex with
  | none =>
    obtain ⟨ds, -, rfl⟩ := resolvePcr8_eq_ok.mp h
    exact ⟨_, rfl, fun hlen => length_replay hlen (List.length_replicate ..) ds⟩
  | some value =>
    cases initdata with
    | none =>
      obtain ⟨raw, -, hraw, rfl⟩ := resolvePcr8_given_eq_ok.mp h
      exact ⟨raw, rfl, fun _ => hraw⟩
    | some data =>
      -- the document and the value exclude each other
      unfold AzureSnp.resolvePcr8 at h
      rw [bind_eq_ok] at h
      obtain ⟨_, hsole, -⟩ := h
      exact absurd ⟨rfl, rfl⟩ (refuseIf_eq_ok.mp hsole)

end

end CvmMeasure
