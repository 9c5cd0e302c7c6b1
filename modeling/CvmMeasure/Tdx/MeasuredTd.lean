import CvmMeasure.Hash.Commitment
import CvmMeasure.ReplayFold
import CvmMeasure.SectionBinding
import CvmMeasure.SignedRegisters
import CvmMeasure.Tdx.BaselineCoverage
import CvmMeasure.Tdx.MrtdStream
import CvmMeasure.Tdx.RegistersOutcome
import CvmMeasure.Tdx.Rtmr0Agreement

/-! # What the registers of a TD commit to

What firmware, VMM and stub measure of a TD is a `MeasuredTd`: the pages of its initial memory, its
firmware variables, the digests a baseline recorded, its partition table, and the Authenticode streams and
sections of its UKI. MRTD is the hash of the pages' stream, the RTMRs are chains over links of the rest.

* **`MeasuredTd`**, **`MeasuredTd.links`**: the measured parts, and the links of each RTMR;
* **`ReadFrom`**, **`computeAll_commits`**: `compute_all` commits to the parts it reads;
* **`computedRtmrs_agree_iff`**: a CCEL replays to the computed RTMR[0], RTMR[1] and RTMR[2] exactly if
  its digests are those of the links;
* **`computedRegisters_binding`**: equal registers mean equal parts. -/

namespace CvmMeasure.Tdx

open Binary Python Pe Hash Tcg

/-- The registers that follow from firmware, UKI and baseline. -/
def imageRtmrs : List (Fin numRtmrs) := [rtmr0, ⟨1, by decide⟩, ⟨2, by decide⟩]

/-- The variable data that firmware measures for the SecureBoot flag. -/
def securebootVariable (enabled : Bool) : Bytes :=
  buildUefiVariableData efiGlobalVariableGuid "SecureBoot" (securebootFlag enabled)

/-- The SecureBoot variable tells the flag. -/
theorem securebootVariable_injective {a b : Bool} (h : securebootVariable a = securebootVariable b) : a = b := by
  have hne : securebootVariable true ≠ securebootVariable false := by decide +kernel
  cases a with
  | false =>
    cases b with
    | false => rfl
    | true => exact absurd h.symm hne
  | true =>
    cases b with
    | false => exact absurd h hne
    | true => rfl

/-- **The parts of a TD that are measured.** -/
structure MeasuredTd where
  /-- The pages of initial memory. -/
  pages : List GuestPage
  pages_wf : ∀ p ∈ pages, p.WellFormed
  /-- The configuration firmware volume. -/
  cfv : Bytes
  secureboot : Bool
  tdxTable : Bytes
  pk : Bytes
  kek : Bytes
  db : Bytes
  dbx : Bytes
  /-- The recorded digests behind the separator. -/
  trailing : List Bytes
  /-- The digest of the partition table's event. -/
  gpt : Bytes
  /-- The Authenticode stream of the UKI. -/
  uki : Bytes
  /-- The Authenticode stream of the kernel embedded in it. -/
  kernel : Bytes
  sections : List (String × Bytes)
  canonical : ∀ s ∈ sections, s.1 ∈ ukiMeasuredSections

namespace MeasuredTd

/-- The links of RTMR[0]. -/
def rtmr0Links (td : MeasuredTd) : List (Link UInt8) :=
  [.given td.tdxTable, .hashed td.cfv, .hashed (securebootVariable td.secureboot), .given td.pk,
    .given td.kek, .given td.db, .given td.dbx, .hashed (leBytes 4 0)] ++ td.trailing.map .given

/-- The links of RTMR[1]. -/
def rtmr1Links (td : MeasuredTd) : List (Link UInt8) :=
  [.hashed (asciiBytes "Calling EFI Application from Boot Option"), .hashed (leBytes 4 0),
    .given td.gpt, .hashed td.uki, .hashed td.kernel,
    .hashed (asciiBytes "Exit Boot Services Invocation"),
    .hashed (asciiBytes "Exit Boot Services Returned with Success")]

/-- The links of RTMR[2]. -/
def rtmr2Links (td : MeasuredTd) : List (Link UInt8) := (sectionHashInputs td.sections).map .hashed

/-- The links of a register. -/
def links (td : MeasuredTd) (rtmr : Fin numRtmrs) : List (Link UInt8) :=
  match rtmr with
  | ⟨0, _⟩ => td.rtmr0Links
  | ⟨1, _⟩ => td.rtmr1Links
  | ⟨2, _⟩ => td.rtmr2Links
  | _ => []

/-- Hashed and given links stand in the same places for all TDs. -/
theorem alikeAll_links (td td' : MeasuredTd) {rtmr : Fin numRtmrs} (h : rtmr ∈ imageRtmrs) :
    AlikeAll (td.links rtmr) (td'.links rtmr) := by
  simp only [imageRtmrs, List.mem_cons, List.not_mem_nil, or_false] at h
  rcases h with rfl | rfl | rfl
  · show AlikeAll td.rtmr0Links td'.rtmr0Links
    have hgiven : AlikeAll (td.trailing.map Link.given) (td'.trailing.map Link.given) := by
      intro p hp
      rw [List.zip_map, List.mem_map] at hp
      obtain ⟨q, -, rfl⟩ := hp
      trivial
    simp only [AlikeAll, rtmr0Links, List.cons_append, List.nil_append, List.zip_cons_cons,
      List.forall_mem_cons]
    exact ⟨trivial, trivial, trivial, trivial, trivial, trivial, trivial, trivial, hgiven⟩
  · show AlikeAll td.rtmr1Links td'.rtmr1Links
    simp only [AlikeAll, rtmr1Links, List.zip_cons_cons, List.forall_mem_cons]
    exact ⟨trivial, trivial, trivial, trivial, trivial, trivial, trivial,
      fun _ h => absurd h List.not_mem_nil⟩
  · exact alikeAll_map_hashed _ _

/-- **Pages and links determine the TD.** -/
theorem eq_of_links {td td' : MeasuredTd} (hpages : td.pages = td'.pages)
    (h : ∀ rtmr ∈ imageRtmrs, td.links rtmr = td'.links rtmr) : td = td' := by
  simp only [imageRtmrs, List.forall_mem_cons] at h
  obtain ⟨h0, h1, h2, -⟩ := h
  have h0 : td.rtmr0Links = td'.rtmr0Links := h0
  have h1 : td.rtmr1Links = td'.rtmr1Links := h1
  have h2 : td.rtmr2Links = td'.rtmr2Links := h2
  simp only [rtmr0Links, List.cons_append, List.nil_append, List.cons.injEq, Link.given.injEq,
    Link.hashed.injEq] at h0
  obtain ⟨htdx, hcfv, hflag, hpk, hkek, hdb, hdbx, -, htrailing⟩ := h0
  have hflag := securebootVariable_injective hflag
  have htrailing : td.trailing = td'.trailing :=
    List.map_injective_iff.mpr (fun _ _ => Link.given.inj) htrailing
  simp only [rtmr1Links, List.cons.injEq, Link.given.injEq, Link.hashed.injEq] at h1
  obtain ⟨-, -, hgpt, huki, hkernel, -⟩ := h1
  have hsections := sectionHashInputs_injective td.canonical td'.canonical
    (List.map_injective_iff.mpr (fun _ _ => Link.hashed.inj) h2)
  cases td
  cases td'
  simp_all

end MeasuredTd

/-- **Firmware, UKI and baseline hold what the TD measures.** -/
structure ReadFrom (firmware uki : Bytes) (baseline : Baseline) (ramGib numaNodes : Int)
    (maxPerNodeGib : Option Int) (gptDigestHex : Option String) (td : MeasuredTd) : Prop where
  pages_eq : referencePages firmware (some ramGib) numaNodes maxPerNodeGib = .ok td.pages
  cfv_eq : cfvImage firmware = .ok td.cfv
  secureboot_eq : td.secureboot = baseline.securebootEnabled
  tdxTable_eq : fixedDigest (baseline.rtmrEvents 0) "TdxTable" = .ok td.tdxTable
  pk_eq : fixedDigest (baseline.rtmrEvents 0) "PK" = .ok td.pk
  kek_eq : fixedDigest (baseline.rtmrEvents 0) "KEK" = .ok td.kek
  db_eq : fixedDigest (baseline.rtmrEvents 0) "db" = .ok td.db
  dbx_eq : fixedDigest (baseline.rtmrEvents 0) "dbx" = .ok td.dbx
  trailing_eq : trailingDigests (trailingEvents (baseline.rtmrEvents 0)) = .ok td.trailing
  gpt_eq : gptDigest baseline gptDigestHex = .ok td.gpt
  uki_eq : authenticodeStream uki = .ok td.uki
  kernel_eq : ∃ kernel, peExtractSection uki ".linux" true = .ok (some kernel) ∧
    authenticodeStream kernel = .ok td.kernel
  sections_eq : measuredSections uki "RTMR[2]" = .ok td.sections

/-- A computed register, by its index. -/
def ComputedRegisters.rtmr (regs : ComputedRegisters) (rtmr : Fin numRtmrs) : String :=
  match rtmr with
  | ⟨0, _⟩ => regs.rtmr0
  | ⟨1, _⟩ => regs.rtmr1
  | ⟨2, _⟩ => regs.rtmr2
  | _ => regs.rtmr3

section

variable {sha384 : Bytes → Bytes} {firmware firmware' uki uki' : Bytes} {baseline baseline' : Baseline}
  {ramGib ramGib' numaNodes numaNodes' : Int} {maxPerNodeGib maxPerNodeGib' : Option Int}
  {rtmr3Hex rtmr3Hex' gptDigestHex gptDigestHex' : Option String} {regs regs' : ComputedRegisters}

/-- RTMR[1] is the replay of four payloads. -/
theorem computeRtmr1_eq_ok {value : String}
    (h : computeRtmr1 sha384 uki baseline gptDigestHex = .ok value) :
    ∃ gpt ukiStream kernel kernelStream, gptDigest baseline gptDigestHex = .ok gpt ∧
      authenticodeStream uki = .ok ukiStream ∧ peExtractSection uki ".linux" true = .ok (some kernel) ∧
      authenticodeStream kernel = .ok kernelStream ∧
      value = hex (replay sha384 zeroRtmr
        [sha384 (asciiBytes "Calling EFI Application from Boot Option"), sha384 (leBytes 4 0), gpt,
          sha384 ukiStream, sha384 kernelStream, sha384 (asciiBytes "Exit Boot Services Invocation"),
          sha384 (asciiBytes "Exit Boot Services Returned with Success")]) := by
  simp only [computeRtmr1, bind_eq_ok] at h
  obtain ⟨gpt, hgpt, ukiAuth, hukiAuth, kernel, hkernel, h⟩ := h
  cases kernel with
  | none => exact absurd h throw_ne_ok
  | some kernel =>
    simp only [peAuthenticodeDigest, bind_eq_ok, pure_eq_ok] at hukiAuth h
    obtain ⟨s, hs, rfl⟩ := hukiAuth
    obtain ⟨_, ⟨k, hk, rfl⟩, rfl⟩ := h
    exact ⟨gpt, s, kernel, k, hgpt, hs, hkernel, hk, rfl⟩

/-- The MRTD of the registers is the hash of a stream, -/
theorem computeAll_mrtd
    (h : computeAll sha384 firmware uki baseline ramGib numaNodes maxPerNodeGib rtmr3Hex gptDigestHex
      = .ok regs) :
    ∃ stream, mrtdStream firmware (some ramGib) numaNodes maxPerNodeGib = .ok stream ∧
      regs.mrtd = hex (sha384 stream) := by
  simp only [computeAll, computeMrtd, bind_eq_ok, pure_eq_ok] at h
  obtain ⟨_, -, _, -, _, ⟨stream, hstream, rfl⟩, _, -, _, -, _, -, rfl⟩ := h
  exact ⟨stream, hstream, rfl⟩

/-- and the firmware is the one the baseline records. -/
theorem computeAll_verifies
    (h : computeAll sha384 firmware uki baseline ramGib numaNodes maxPerNodeGib rtmr3Hex gptDigestHex
      = .ok regs) : verifyFirmware sha384 firmware baseline = .ok () := by
  rw [computeAll, bind_eq_ok] at h
  obtain ⟨_, hverify, -⟩ := h
  exact hverify

/-- **`compute_all` commits to what it reads.** -/
theorem computeAll_commits
    (h : computeAll sha384 firmware uki baseline ramGib numaNodes maxPerNodeGib rtmr3Hex gptDigestHex
      = .ok regs) :
    ∃ td, ReadFrom firmware uki baseline ramGib numaNodes maxPerNodeGib gptDigestHex td ∧
      regs.mrtd = hex (sha384 (pageStream td.pages)) ∧
      ∀ rtmr ∈ imageRtmrs, regs.rtmr rtmr = hex (chainOf sha384 zeroRtmr (td.links rtmr)) := by
  obtain ⟨hrtmr0, hrtmr1, hrtmr2, -⟩ := computeAll_eq_ok h
  obtain ⟨stream, hstream, hmrtd⟩ := computeAll_mrtd h
  obtain ⟨_, _, pages, -, -, -, hpages, hwf, rfl⟩ := mrtdStream_pages hstream
  simp only [computeRtmr0, rtmr0Digests, bind_eq_ok, pure_eq_ok] at hrtmr0
  obtain ⟨_, ⟨_, -, cfv, hcfv, _, hflag, tdx, htdx, pk, hpk, kek, hkek, db, hdb, dbx, hdbx, trailing,
    htrailing, rfl⟩, hrtmr0⟩ := hrtmr0
  obtain rfl : sha384 (securebootVariable baseline.securebootEnabled) = _ := Except.ok.inj hflag
  obtain ⟨gpt, s, kernel, k, hgpt, hs, hkernel, hk, hrtmr1⟩ := computeRtmr1_eq_ok hrtmr1
  simp only [computeRtmr2, bind_eq_ok, pure_eq_ok] at hrtmr2
  obtain ⟨sections, hsections, hrtmr2⟩ := hrtmr2
  refine ⟨⟨pages, hwf, cfv, baseline.securebootEnabled, tdx, pk, kek, db, dbx, trailing, gpt, s, k,
    sections, measuredSections_names hsections⟩, ⟨hpages, hcfv, rfl, htdx, hpk, hkek, hdb, hdbx,
      htrailing, hgpt, hs, ⟨kernel, hkernel, hk⟩, hsections⟩, hmrtd, ?_⟩
  simp only [imageRtmrs, List.forall_mem_cons]
  refine ⟨?_, hrtmr1, ?_, fun _ h => absurd h List.not_mem_nil⟩
  · have hlinks : (trailing.map Link.given).map (Link.digest sha384) = trailing := by
      rw [List.map_map]
      exact List.map_id' trailing
    rw [← hlinks] at hrtmr0
    exact hrtmr0.symm
  · show regs.rtmr2 = hex (chainOf sha384 zeroRtmr ((sectionHashInputs sections).map .hashed))
    rw [chainOf_map_hashed]
    exact hrtmr2.symm

/-! ## A log and a TD -/

/-- **The log measures the TD**: on each image register its digests are those of the links, none missing,
none added and in order. -/
def LogMeasures (sha384 : Bytes → Bytes) (log : ParsedEventLog) (td : MeasuredTd) : Prop :=
  ∀ rtmr : Fin numRtmrs, rtmr ∈ imageRtmrs →
    registerDigests tpmAlgSha384 rtmr log.events = (td.links rtmr).map (Link.digest sha384)

/-- What is hashed to replay the log and to compute the image registers. -/
def comparedInputs (sha384 : Bytes → Bytes) (log : ParsedEventLog) (td : MeasuredTd) : List Bytes :=
  imageRtmrs.flatMap fun rtmr : Fin numRtmrs =>
    replayInputs sha384 zeroRtmr (registerDigests tpmAlgSha384 rtmr log.events)
      ++ linkInputs sha384 zeroRtmr (td.links rtmr)

/-- A register as a replay leaves it, against the register of the links. -/
theorem agrees_iff_measures (hlen : ∀ x, (sha384 x).length = sha384Size) {td : MeasuredTd}
    (hvalues : ∀ rtmr ∈ imageRtmrs, regs.rtmr rtmr = hex (chainOf sha384 zeroRtmr (td.links rtmr)))
    (log : ParsedEventLog) :
    (LogMeasures sha384 log td → ∀ rtmr ∈ imageRtmrs,
        hex (replayEventLog sha384 log tpmAlgSha384 rtmr) = regs.rtmr rtmr) ∧
      ((∀ rtmr ∈ imageRtmrs, hex (replayEventLog sha384 log tpmAlgSha384 rtmr) = regs.rtmr rtmr) →
        UpTo sha384 zeroRtmr (comparedInputs sha384 log td) (LogMeasures sha384 log td)) := by
  have hreplayed : ∀ rtmr, replayEventLog sha384 log tpmAlgSha384 rtmr
      = replay sha384 zeroRtmr (registerDigests tpmAlgSha384 rtmr log.events) :=
    fun rtmr => replayEvents_eq_fold sha384 log.events tpmAlgSha384 rtmr
  constructor
  · intro hmeasures rtmr hrtmr
    rw [hvalues rtmr hrtmr, hreplayed, hmeasures rtmr hrtmr, chainOf]
  · intro hagree
    refine UpTo.forall_mem fun rtmr hrtmr => ?_
    have hends := (hagree rtmr hrtmr).trans (hvalues rtmr hrtmr)
    rw [hreplayed] at hends
    refine (chain_eq_chainOf hlen (List.length_replicate ..) (hex_injective hends)).mono ?_
    exact fun x hx => List.mem_flatMap.mpr ⟨rtmr, hrtmr, hx⟩

/-- **Replayed and computed registers agree exactly on the logs that measure the TD.** Where
`compute_all` returns, the TD it reads is measured by a CCEL if and, up to a failure of the hash on the
inputs evaluated, only if the CCEL replays to the computed RTMR[0], RTMR[1] and RTMR[2]. -/
theorem computedRtmrs_agree_iff (hlen : ∀ x, (sha384 x).length = sha384Size)
    (hcompute : computeAll sha384 firmware uki baseline ramGib numaNodes maxPerNodeGib rtmr3Hex
      gptDigestHex = .ok regs) :
    ∃ td, ReadFrom firmware uki baseline ramGib numaNodes maxPerNodeGib gptDigestHex td ∧
      ∀ log : ParsedEventLog,
        (LogMeasures sha384 log td → ∀ rtmr ∈ imageRtmrs,
          hex (replayEventLog sha384 log tpmAlgSha384 rtmr) = regs.rtmr rtmr) ∧
        ((∀ rtmr ∈ imageRtmrs,
            hex (replayEventLog sha384 log tpmAlgSha384 rtmr) = regs.rtmr rtmr) →
          UpTo sha384 zeroRtmr (comparedInputs sha384 log td) (LogMeasures sha384 log td)) := by
  obtain ⟨td, hread, -, hvalues⟩ := computeAll_commits hcompute
  exact ⟨td, hread, agrees_iff_measures hlen hvalues⟩

/-- The small TD is measured by the logs of its registers. -/
theorem computedRtmrs_agree_iff_sample :
    ∃ (regs : ComputedRegisters) (td : MeasuredTd),
      ReadFrom sampleGuestFirmware sampleBootUki (sampleBootBaseline []) 4 1 none none td ∧
      ∀ log : ParsedEventLog,
        (LogMeasures (sampleHash 48) log td → ∀ rtmr ∈ imageRtmrs,
          hex (replayEventLog (sampleHash 48) log tpmAlgSha384 rtmr) = regs.rtmr rtmr) ∧
        ((∀ rtmr ∈ imageRtmrs,
            hex (replayEventLog (sampleHash 48) log tpmAlgSha384 rtmr) = regs.rtmr rtmr) →
          UpTo (sampleHash 48) zeroRtmr (comparedInputs (sampleHash 48) log td)
            (LogMeasures (sampleHash 48) log td)) := by
  obtain ⟨regs, hregs⟩ := exists_computeAll_sampleBoot [] (by simp)
  exact ⟨regs, computedRtmrs_agree_iff (length_sampleHash 48) hregs⟩

/-! ## Two TDs -/

/-- What is hashed to compute MRTD and the image registers. -/
def tdInputs (sha384 : Bytes → Bytes) (td : MeasuredTd) : List Bytes :=
  pageStream td.pages :: imageRtmrs.flatMap fun rtmr => linkInputs sha384 zeroRtmr (td.links rtmr)

/-- The firmware a baseline was captured from is the only one it is used with. -/
theorem verifyFirmware_binding (h : verifyFirmware sha384 firmware baseline = .ok ())
    (h' : verifyFirmware sha384 firmware' baseline = .ok ()) (hrecorded : baseline.firmwareSha384 ≠ "") :
    UpTo sha384 zeroRtmr [firmware, firmware'] (firmware = firmware') := by
  rw [verifyFirmware, if_neg hrecorded, refuseIf_eq_ok, not_not] at h h'
  exact hash_binding (by simp) (by simp) (hex_injective (h.trans h'.symm))

/-- **The registers bind the TD.** Two runs of `compute_all` with the same MRTD, RTMR[0], RTMR[1] and
RTMR[2] have the same initial pages, configuration volume, SecureBoot flag, recorded digests, partition
table digest, Authenticode streams of UKI and kernel, and sections, up to a failure of the hash on the
inputs evaluated; and two runs with one baseline that records a firmware hash have one firmware. -/
theorem computedRegisters_binding (hlen : ∀ x, (sha384 x).length = sha384Size)
    (h : computeAll sha384 firmware uki baseline ramGib numaNodes maxPerNodeGib rtmr3Hex gptDigestHex
      = .ok regs)
    (h' : computeAll sha384 firmware' uki' baseline' ramGib' numaNodes' maxPerNodeGib' rtmr3Hex'
      gptDigestHex' = .ok regs')
    (hmrtd : regs.mrtd = regs'.mrtd) (hrtmrs : ∀ rtmr ∈ imageRtmrs, regs.rtmr rtmr = regs'.rtmr rtmr) :
    ∃ td td', ReadFrom firmware uki baseline ramGib numaNodes maxPerNodeGib gptDigestHex td ∧
      ReadFrom firmware' uki' baseline' ramGib' numaNodes' maxPerNodeGib' gptDigestHex' td' ∧
      UpTo sha384 zeroRtmr (tdInputs sha384 td ++ tdInputs sha384 td') (td = td') ∧
      (baseline = baseline' → baseline.firmwareSha384 ≠ "" →
        UpTo sha384 zeroRtmr [firmware, firmware'] (firmware = firmware')) := by
  obtain ⟨td, hread, hstream, hvalues⟩ := computeAll_commits h
  obtain ⟨td', hread', hstream', hvalues'⟩ := computeAll_commits h'
  refine ⟨td, td', hread, hread', ?_, ?_⟩
  case refine_2 =>
    rintro rfl hrecorded
    exact verifyFirmware_binding (computeAll_verifies h) (computeAll_verifies h') hrecorded
  -- MRTD is one hash, and its stream is cut into pages in one way only
  have hpages : UpTo sha384 zeroRtmr (tdInputs sha384 td ++ tdInputs sha384 td')
      (td.pages = td'.pages) := by
    refine (hash_binding (a := pageStream td.pages) (b := pageStream td'.pages) ?_ ?_
      (hex_injective (hstream.symm.trans (hmrtd.trans hstream')))).imp
        fun heq => pageStream_injective td.pages_wf td'.pages_wf heq
    · exact List.mem_append_left _ List.mem_cons_self
    · exact List.mem_append_right _ List.mem_cons_self
  have hlinks : UpTo sha384 zeroRtmr (tdInputs sha384 td ++ tdInputs sha384 td')
      (∀ rtmr ∈ imageRtmrs, td.links rtmr = td'.links rtmr) := by
    refine UpTo.forall_mem fun rtmr hrtmr => ?_
    have hends := (hvalues rtmr hrtmr).symm.trans ((hrtmrs rtmr hrtmr).trans (hvalues' rtmr hrtmr))
    refine (chainOf_binding hlen (List.length_replicate ..) (MeasuredTd.alikeAll_links td td' hrtmr)
      (hex_injective hends)).mono ?_
    intro x hx
    rw [List.mem_append] at hx ⊢
    exact hx.imp
      (fun hx => List.mem_cons_of_mem _ (List.mem_flatMap.mpr ⟨rtmr, hrtmr, hx⟩))
      fun hx => List.mem_cons_of_mem _ (List.mem_flatMap.mpr ⟨rtmr, hrtmr, hx⟩)
  exact (hpages.and hlinks).imp fun ⟨hp, hl⟩ => MeasuredTd.eq_of_links hp hl

/-- The small TD, with an unsigned UKI. -/
theorem exists_computeAll_unsignedUki : ∃ regs, computeAll (sampleHash 48) sampleGuestFirmware unsignedUki
    (sampleBootBaseline []) 4 1 none none none = .ok regs := by
  have hkernel : peExtractSection unsignedUki ".linux" true
      = .ok (some (sampleUki [0x01, 0x02, 0x03, 0x04])) := by decide +kernel
  exact @exists_computeAll_sampleBoot_of unsignedUki [] (by simp) (exists_of_isOk (by decide +kernel))
    ⟨_, hkernel, exists_of_isOk (by decide +kernel)⟩ (exists_of_isOk (by decide +kernel))

/-- The small TD, with its UKI unsigned and signed. -/
theorem computedRegisters_binding_sample :
    ∃ td td',
      ReadFrom sampleGuestFirmware unsignedUki (sampleBootBaseline []) 4 1 none none td ∧
      ReadFrom sampleGuestFirmware (sampleSignature.on unsignedUki unsignedHeaders 232)
        (sampleBootBaseline []) 4 1 none none td' ∧
      UpTo (sampleHash 48) zeroRtmr (tdInputs (sampleHash 48) td ++ tdInputs (sampleHash 48) td')
        (td = td') ∧
      (sampleBootBaseline [] = sampleBootBaseline [] → (sampleBootBaseline []).firmwareSha384 ≠ "" →
        UpTo (sampleHash 48) zeroRtmr [sampleGuestFirmware, sampleGuestFirmware]
          (sampleGuestFirmware = sampleGuestFirmware)) := by
  obtain ⟨regs, hregs⟩ := exists_computeAll_unsignedUki
  have hsigned := hregs
  rw [← (signable_unsignedUki.sameImage sampleSignature).tdx_eq] at hsigned
  exact computedRegisters_binding (length_sampleHash 48) hregs hsigned rfl fun _ _ => rfl

end

end CvmMeasure.Tdx
