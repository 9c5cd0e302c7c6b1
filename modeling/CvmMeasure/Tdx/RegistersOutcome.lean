import CvmMeasure.Pe.Refusals
import CvmMeasure.Tdx.MrtdOutcome
import CvmMeasure.Tdx.Rtmr0Interleaving

/-! # How a run of `compute_all` ends

MRTD aside, everything `compute_all` computes is returned or refused with `ValueError`, and what is accepted
can be read off the arguments, the baseline's events and the images.

* `onlyValueError_rtmr0Digests`: no label is looked up in vain;
* **`ArgumentsPass`**, **`Rtmr0Accepted`**, **`Rtmr1Accepted`**: what the arguments, RTMR[0] and RTMR[1] need,
  and `exists_computeRtmr0_iff`, `exists_computeRtmr1_iff`: that this is all they need;
* **`Accepted`**, **`computeAll_outcome`**: `compute_all` returns on inputs that are accepted, fails as
  `compute_mrtd` does where the arguments pass, and raises `ValueError` on all others. -/

namespace CvmMeasure.Tdx

open Binary Python Pe Hash

/-! ## Nothing but `ValueError` -/

section

variable (sha384 : Bytes → Bytes)

/-- A text that is no digest is refused. -/
theorem onlyValueError_digestFromHex (value what : String) : OnlyValueError (digestFromHex value what) := by
  unfold digestFromHex
  split
  · exact onlyValueError_throw _
  · exact (onlyValueError_refuseIf _ _).andThen fun _ => onlyValueError_pure _

/-- A label that an event carries is found. -/
theorem onlyValueError_fixedDigest {events : List BaselineEvent} {label : String}
    (h : label ∈ events.map BaselineEvent.label) : OnlyValueError (fixedDigest events label) := by
  unfold fixedDigest
  split
  · rename_i hnone
    have hmissing := (digestByLabel_isNone events label).mp (by rw [hnone]; rfl)
    exact absurd h hmissing
  · exact onlyValueError_digestFromHex _ _

/-- The trailing digests are decoded one by one. -/
theorem onlyValueError_trailingDigests (events : List BaselineEvent) :
    OnlyValueError (trailingDigests events) := by
  induction events with
  | nil => exact onlyValueError_pure _
  | cons e es ih =>
    exact (onlyValueError_digestFromHex _ _).andThen fun _ => ih.andThen fun _ => onlyValueError_pure _

/-- A firmware without a usable configuration volume is refused. -/
theorem onlyValueError_cfvImage (firmware : Bytes) : OnlyValueError (cfvImage firmware) := by
  refine (onlyValueError_parseTdxMetadata firmware).andThen fun metadata => ?_
  split
  · exact (onlyValueError_refuseIf _ _).andThen fun _ => (onlyValueError_refuseIf _ _).andThen fun _ =>
      (onlyValueError_refuseIf _ _).andThen fun _ => onlyValueError_pure _
  · exact onlyValueError_throw _

/-- **No label is looked up in vain**: the checks stand in front of the lookups. -/
theorem onlyValueError_rtmr0Digests (firmware : Bytes) (baseline : Baseline) :
    OnlyValueError (rtmr0Digests sha384 firmware baseline) := by
  have hcheck : OnlyValueError (checkRtmr0Events baseline.machineType (baseline.rtmrEvents 0)) :=
    (onlyValueError_refuseIf _ _).andThen fun _ => (onlyValueError_refuseIf _ _).andThen fun _ =>
      onlyValueError_refuseIf _ _
  refine hcheck.bind fun _ hok => (onlyValueError_cfvImage firmware).andThen fun _ => ?_
  obtain ⟨hfixed, -⟩ := checkRtmr0Events_ok_iff.mp hok
  have hdigest : ∀ label ∈ rtmr0FixedLabels, OnlyValueError (fixedDigest (baseline.rtmrEvents 0) label) :=
    fun label hlabel => onlyValueError_fixedDigest (hfixed label hlabel)
  -- the name of the flag's variable is one of the table
  have hflag : OnlyValueError
      (computeSecurebootDigest sha384 "SecureBoot" (securebootFlag baseline.securebootEnabled)) :=
    onlyValueError_pure _
  exact hflag.andThen fun _ => (hdigest "TdxTable" (by decide)).andThen fun _ =>
    (hdigest "PK" (by decide)).andThen fun _ => (hdigest "KEK" (by decide)).andThen fun _ =>
    (hdigest "db" (by decide)).andThen fun _ => (hdigest "dbx" (by decide)).andThen fun _ =>
    (onlyValueError_trailingDigests _).andThen fun _ => onlyValueError_pure _

/-- RTMR[0] is returned or refused. -/
theorem onlyValueError_computeRtmr0 (firmware : Bytes) (baseline : Baseline) :
    OnlyValueError (computeRtmr0 sha384 firmware baseline) :=
  (onlyValueError_rtmr0Digests sha384 firmware baseline).andThen fun _ => onlyValueError_pure _

/-- RTMR[1] is returned or refused. -/
theorem onlyValueError_computeRtmr1 (uki : Bytes) (baseline : Baseline) (gptDigestHex : Option String) :
    OnlyValueError (computeRtmr1 sha384 uki baseline gptDigestHex) := by
  have hgpt : OnlyValueError (gptDigest baseline gptDigestHex) := by
    unfold gptDigest
    split
    · exact onlyValueError_digestFromHex _ _
    · split
      · exact onlyValueError_throw _
      · exact onlyValueError_digestFromHex _ _
  refine hgpt.andThen fun _ => (onlyValueError_authenticodeDigest _ _).andThen fun _ =>
    (onlyValueError_peExtractSection _ _ _).andThen fun kernel => ?_
  cases kernel with
  | none => exact onlyValueError_throw _
  | some kernel => exact (onlyValueError_authenticodeDigest _ _).andThen fun _ => onlyValueError_pure _

/-- RTMR[2] is returned or refused. -/
theorem onlyValueError_computeRtmr2 (uki : Bytes) : OnlyValueError (computeRtmr2 sha384 uki) :=
  (onlyValueError_measuredSections uki _).andThen fun _ => onlyValueError_pure _

/-- A baseline of other firmware is refused. -/
theorem onlyValueError_verifyFirmware (firmware : Bytes) (baseline : Baseline) :
    OnlyValueError (verifyFirmware sha384 firmware baseline) := by
  unfold verifyFirmware
  split
  · exact onlyValueError_pure _
  · exact onlyValueError_refuseIf _ _

/-- A given RTMR[3] that is no digest is refused. -/
theorem onlyValueError_givenRtmr3 (rtmr3Hex : Option String) : OnlyValueError (givenRtmr3 rtmr3Hex) := by
  cases rtmr3Hex with
  | none => exact onlyValueError_pure _
  | some value => exact onlyValueError_digestFromHex value "rtmr3"

end

/-! ## What is accepted -/

/-- A text is taken as a digest exactly if it decodes to one. -/
theorem exists_digestFromHex_iff {value what : String} :
    (∃ d, digestFromHex value what = .ok d) ↔ IsSha384Hex value := by
  simp only [digestFromHex_eq_ok, IsSha384Hex]

/-- **The arguments pass**: the baseline is of this firmware or names none, and RTMR[3] is a digest if it is
given. -/
structure ArgumentsPass (sha384 : Bytes → Bytes) (firmware : Bytes) (baseline : Baseline)
    (rtmr3Hex : Option String) : Prop where
  captured : baseline.firmwareSha384 = "" ∨ hex (sha384 firmware) = baseline.firmwareSha384.toLower
  rtmr3 : ∀ value, rtmr3Hex = some value → IsSha384Hex value

/-- **RTMR[0] is accepted**: the events are the supported ones, with digests that decode, and the firmware has
a configuration volume. -/
structure Rtmr0Accepted (firmware : Bytes) (baseline : Baseline) : Prop where
  supported : SupportedEvents (baseline.rtmrEvents 0)
  digests : ∀ e ∈ baseline.rtmrEvents 0, IsSha384Hex e.digest
  cfv : ∃ cfv, cfvImage firmware = .ok cfv

/-- A GPT digest that decodes is given, or recorded. -/
def GptAccepted (baseline : Baseline) : Option String → Prop
  | some value => IsSha384Hex value
  | none => ∃ e, gptEvent baseline = some e ∧ IsSha384Hex e.digest

/-- **RTMR[1] is accepted**: there is a GPT digest, and the UKI and the kernel embedded in it are images. -/
structure Rtmr1Accepted (uki : Bytes) (baseline : Baseline) (gptDigestHex : Option String) : Prop where
  gpt : GptAccepted baseline gptDigestHex
  image : ∃ spans, authenticodeSpans uki = .ok spans
  kernel : ∃ kernel, peExtractSection uki ".linux" true = .ok (some kernel) ∧
    ∃ spans, authenticodeSpans kernel = .ok spans

/-- **The inputs are accepted**, part by part. -/
structure Accepted (sha384 : Bytes → Bytes) (firmware uki : Bytes) (baseline : Baseline)
    (ramGib numaNodes : Int) (maxPerNodeGib : Option Int) (rtmr3Hex gptDigestHex : Option String) : Prop where
  arguments : ArgumentsPass sha384 firmware baseline rtmr3Hex
  mrtd : Completes firmware (some ramGib) numaNodes maxPerNodeGib
  rtmr0 : Rtmr0Accepted firmware baseline
  rtmr1 : Rtmr1Accepted uki baseline gptDigestHex
  rtmr2 : ∃ sections, measuredSections uki "RTMR[2]" = .ok sections

section

variable {sha384 : Bytes → Bytes} {firmware uki : Bytes} {baseline : Baseline}
  {rtmr3Hex gptDigestHex : Option String}

/-- The firmware is verified exactly if the baseline names it or none. -/
theorem exists_verifyFirmware_iff : (∃ u, verifyFirmware sha384 firmware baseline = .ok u) ↔
    baseline.firmwareSha384 = "" ∨ hex (sha384 firmware) = baseline.firmwareSha384.toLower := by
  unfold verifyFirmware
  by_cases hnone : baseline.firmwareSha384 = ""
  · rw [if_pos hnone]
    exact iff_of_true ⟨(), rfl⟩ (Or.inl hnone)
  · rw [if_neg hnone, or_iff_right hnone]
    simp only [refuseIf_eq_ok, not_not, exists_const]

/-- RTMR[3] is taken exactly if it is a digest where it is given. -/
theorem exists_givenRtmr3_iff : (∃ raw, givenRtmr3 rtmr3Hex = .ok raw) ↔
    ∀ value, rtmr3Hex = some value → IsSha384Hex value := by
  cases rtmr3Hex with
  | none => exact iff_of_true ⟨zeroRtmr, rfl⟩ fun _ h => absurd h (Option.some_ne_none _).symm
  | some given =>
    rw [givenRtmr3, exists_digestFromHex_iff]
    constructor
    · rintro h _ ⟨⟩
      exact h
    · exact fun h => h given rfl

/-- A register has the digests of all its events decoded. -/
theorem isSha384Hex_of_computeRtmr0 {value : String} (h : computeRtmr0 sha384 firmware baseline = .ok value) :
    ∀ e ∈ baseline.rtmrEvents 0, IsSha384Hex e.digest := by
  have hcheck : checkRtmr0Events baseline.machineType (baseline.rtmrEvents 0) = .ok () := by
    simp only [computeRtmr0, rtmr0Digests, bind_eq_ok] at h
    obtain ⟨_, ⟨_, hcheck, -⟩, -⟩ := h
    exact hcheck
  obtain ⟨cfv, secureboot, -, -, hreplay⟩ := computeRtmr0_replays h
  obtain ⟨ds, hfeeds, -⟩ := hreplay ⟨cfv, secureboot, [], [], []⟩ rfl rfl
  intro e he
  -- the event stands in one of the slots
  have hslot := (labelledEvents_append_perm hcheck).mem_iff.mp he
  rw [← recordedEvents_rtmr0Extends] at hslot
  exact exists_feeds_of_mem hfeeds hslot

/-- **RTMR[0] is computed exactly if it is accepted.** -/
theorem exists_computeRtmr0_iff :
    (∃ value, computeRtmr0 sha384 firmware baseline = .ok value) ↔ Rtmr0Accepted firmware baseline := by
  constructor
  · rintro ⟨value, h⟩
    have hhex := isSha384Hex_of_computeRtmr0 h
    simp only [computeRtmr0, rtmr0Digests, bind_eq_ok] at h
    obtain ⟨_, ⟨_, hcheck, cfv, hcfv, -⟩, -⟩ := h
    exact ⟨checkRtmr0Events_ok_iff_supported.mp hcheck, hhex, cfv, hcfv⟩
  · rintro ⟨hsupported, hhex, cfv, hcfv⟩
    exact exists_computeRtmr0 hcfv hhex hsupported

/-- There is a GPT digest exactly if it is given or recorded. -/
theorem exists_gptDigest_iff : (∃ d, gptDigest baseline gptDigestHex = .ok d) ↔
    GptAccepted baseline gptDigestHex := by
  cases gptDigestHex with
  | some value => exact exists_digestFromHex_iff
  | none =>
    show _ ↔ ∃ e, gptEvent baseline = some e ∧ IsSha384Hex e.digest
    unfold gptDigest gptEvent
    dsimp only
    cases (baseline.rtmrEvents 1).find? fun e => e.label ∈ gptLabels with
    | none => exact iff_of_false (fun ⟨_, h⟩ => throw_ne_ok h) fun ⟨_, h, _⟩ => by cases h
    | some event =>
      dsimp only
      rw [exists_digestFromHex_iff]
      constructor
      · exact fun h => ⟨event, rfl, h⟩
      · rintro ⟨_, ⟨⟩, h⟩
        exact h

/-- An image has a digest exactly if its spans are found. -/
theorem exists_authenticodeDigest_iff {hash : Bytes → Bytes} {pe : Bytes} :
    (∃ d, peAuthenticodeDigest hash pe = .ok d) ↔ ∃ spans, authenticodeSpans pe = .ok spans := by
  simp only [peAuthenticodeDigest, authenticodeStream, bind_eq_ok, pure_eq_ok]
  constructor
  · rintro ⟨_, _, ⟨spans, hspans, -⟩, -⟩
    exact ⟨spans, hspans⟩
  · rintro ⟨spans, hspans⟩
    exact ⟨_, _, ⟨spans, hspans, rfl⟩, rfl⟩

/-- **RTMR[1] is computed exactly if it is accepted.** -/
theorem exists_computeRtmr1_iff : (∃ value, computeRtmr1 sha384 uki baseline gptDigestHex = .ok value) ↔
    Rtmr1Accepted uki baseline gptDigestHex := by
  constructor
  · rintro ⟨value, h⟩
    simp only [computeRtmr1, bind_eq_ok] at h
    obtain ⟨gpt, hgpt, ukiAuth, huki, kernel, hkernel, h⟩ := h
    cases kernel with
    | none => exact absurd h throw_ne_ok
    | some kernel =>
      simp only [bind_eq_ok] at h
      obtain ⟨kernelAuth, hauth, -⟩ := h
      exact ⟨exists_gptDigest_iff.mp ⟨gpt, hgpt⟩, exists_authenticodeDigest_iff.mp ⟨ukiAuth, huki⟩, kernel,
        hkernel, exists_authenticodeDigest_iff.mp ⟨kernelAuth, hauth⟩⟩
  · rintro ⟨hgpt, huki, kernel, hkernel, hauth⟩
    obtain ⟨gpt, hgpt⟩ := exists_gptDigest_iff.mpr hgpt
    obtain ⟨ukiAuth, huki⟩ : ∃ d, peAuthenticodeDigest sha384 uki = .ok d :=
      exists_authenticodeDigest_iff.mpr huki
    obtain ⟨kernelAuth, hauth⟩ : ∃ d, peAuthenticodeDigest sha384 kernel = .ok d :=
      exists_authenticodeDigest_iff.mpr hauth
    simp only [computeRtmr1, hgpt, huki, hkernel, hauth, ok_bind]
    exact ⟨_, rfl⟩

/-- RTMR[2] is computed exactly if the sections are. -/
theorem exists_computeRtmr2_iff : (∃ value, computeRtmr2 sha384 uki = .ok value) ↔
    ∃ sections, measuredSections uki "RTMR[2]" = .ok sections := by
  simp only [computeRtmr2, bind_eq_ok, pure_eq_ok]
  constructor
  · rintro ⟨_, sections, h, -⟩
    exact ⟨sections, h⟩
  · rintro ⟨sections, h⟩
    exact ⟨_, sections, h, rfl⟩

end

/-! ## The run -/

/-- **How a run of `compute_all` ends**: it returns if the inputs are accepted, fails as `compute_mrtd` does if
the arguments pass, and is refused otherwise. -/
theorem computeAll_outcome (sha384 : Bytes → Bytes) (firmware uki : Bytes) (baseline : Baseline)
    (ramGib numaNodes : Int) (maxPerNodeGib : Option Int) (rtmr3Hex gptDigestHex : Option String) :
    Outcome
      (computeAll sha384 firmware uki baseline ramGib numaNodes maxPerNodeGib rtmr3Hex gptDigestHex)
      (Accepted sha384 firmware uki baseline ramGib numaNodes maxPerNodeGib rtmr3Hex gptDigestHex)
      (ArgumentsPass sha384 firmware baseline rtmr3Hex ∧ Overflows firmware (some ramGib) numaNodes maxPerNodeGib)
      (ArgumentsPass sha384 firmware baseline rtmr3Hex ∧
        Exceeds firmware (some ramGib) numaNodes maxPerNodeGib) := by
  have hverify := outcome_onlyValueError (onlyValueError_verifyFirmware sha384 firmware baseline)
  have hgiven := outcome_onlyValueError (onlyValueError_givenRtmr3 rtmr3Hex)
  have hmrtd := computeMrtd_outcome sha384 firmware (some ramGib) numaNodes maxPerNodeGib
  have hrtmr0 := outcome_onlyValueError (onlyValueError_computeRtmr0 sha384 firmware baseline)
  have hrtmr1 := outcome_onlyValueError (onlyValueError_computeRtmr1 sha384 uki baseline gptDigestHex)
  have hrtmr2 := outcome_onlyValueError (onlyValueError_computeRtmr2 sha384 uki)
  rw [exists_verifyFirmware_iff] at hverify
  rw [exists_givenRtmr3_iff] at hgiven
  rw [exists_computeRtmr0_iff] at hrtmr0
  rw [exists_computeRtmr1_iff] at hrtmr1
  rw [exists_computeRtmr2_iff] at hrtmr2
  -- statement by statement, in the order of the function
  refine (hverify.bind fun _ _ => hgiven.bind fun _ _ => hmrtd.bind fun _ _ => hrtmr0.bind fun _ _ =>
    hrtmr1.bind fun _ _ => hrtmr2.andPure _).congr ?_ ?_ ?_
  · constructor
    · rintro ⟨hcaptured, hrtmr3, hcompletes, haccepted0, haccepted1, haccepted2⟩
      exact ⟨⟨hcaptured, hrtmr3⟩, hcompletes, haccepted0, haccepted1, haccepted2⟩
    · rintro ⟨⟨hcaptured, hrtmr3⟩, hcompletes, haccepted0, haccepted1, haccepted2⟩
      exact ⟨hcaptured, hrtmr3, hcompletes, haccepted0, haccepted1, haccepted2⟩
  · simp only [and_false, or_false, false_or]
    exact ⟨fun ⟨hcaptured, hrtmr3, h⟩ => ⟨⟨hcaptured, hrtmr3⟩, h⟩,
      fun ⟨⟨hcaptured, hrtmr3⟩, h⟩ => ⟨hcaptured, hrtmr3, h⟩⟩
  · simp only [and_false, or_false, false_or]
    exact ⟨fun ⟨hcaptured, hrtmr3, h⟩ => ⟨⟨hcaptured, hrtmr3⟩, h⟩,
      fun ⟨⟨hcaptured, hrtmr3⟩, h⟩ => ⟨hcaptured, hrtmr3, h⟩⟩

/-! ## A small TD -/

/-- A UKI of one section, the given kernel. -/
def ukiAround (kernel : Bytes) : Bytes :=
  asciiBytes "MZ" ++ List.replicate 58 0x00 ++ leBytes 4 64
    ++ peSignature ++ leBytes 2 0x8664 ++ leBytes 2 1 ++ List.replicate 12 0x00 ++ leBytes 2 112
    ++ leBytes 2 0
    ++ leBytes 2 0x20B ++ List.replicate 54 0x00 ++ leBytes 4 0x3000 ++ leBytes 4 240 ++ leBytes 4 0
    ++ List.replicate 40 0x00 ++ leBytes 4 0
    ++ sampleSectionEntry ".linux" kernel.length 0x2000 240 ++ kernel

/-- A UKI around the small image. -/
def sampleBootUki : Bytes := ukiAround (sampleUki [0x01, 0x02, 0x03, 0x04])

/-- A baseline of the supported RTMR[0] events and a GPT event, with more events behind them. -/
def sampleBootBaseline (more : List BaselineEvent) : Baseline :=
  { bareBaseline with
    events := bareBaseline.events ++ (⟨1, "EV_EFI_GPT_EVENT", "GPT", hex zeroRtmr⟩ :: more) }

/-- Its events, register by register. -/
theorem rtmrEvents_sampleBoot (more : List BaselineEvent) (rtmr : Int) :
    (sampleBootBaseline more).rtmrEvents rtmr = bareBaseline.rtmrEvents rtmr
      ++ (⟨1, "EV_EFI_GPT_EVENT", "GPT", hex zeroRtmr⟩ :: more).filter fun e => e.rtmr == rtmr := by
  rw [Baseline.rtmrEvents, sampleBootBaseline]
  exact List.filter_append _ _

/-- The RTMR[0] events are those extracted from the small log, whatever the other registers have. -/
theorem exists_computeRtmr0_sampleBoot {more : List BaselineEvent} (hmore : ∀ e ∈ more, e.rtmr = 1) :
    ∃ value, computeRtmr0 (sampleHash 48) sampleGuestFirmware (sampleBootBaseline more)
      = .ok value := by
  obtain ⟨cfv, hcfv⟩ : ∃ cfv, cfvImage sampleGuestFirmware = .ok cfv := by
    unfold cfvImage
    rw [parse_sampleGuestFirmware]
    exact exists_of_isOk (by decide +kernel)
  obtain ⟨log, hlog, -, -, hevents⟩ := extractFromCcel_eq_ok extractFromCcel_bareCcel
  obtain rfl := ok_unique parseEventLog_bareCcel hlog
  have hsame : (sampleBootBaseline more).rtmrEvents 0 = bareBaseline.rtmrEvents 0 := by
    rw [rtmrEvents_sampleBoot, List.append_right_eq_self, List.filter_eq_nil_iff]
    intro e he
    rcases List.mem_cons.mp he with rfl | he
    · decide
    · rw [hmore e he]
      decide
  have hcheck : checkRtmr0Events (sampleBootBaseline more).machineType
      ((sampleBootBaseline more).rtmrEvents 0) = .ok () := by
    rw [hsame]
    exact checkRtmr0Events_ok_iff.mpr (checkRtmr0Events_ok_iff.mp checkRtmr0Events_bare)
  obtain ⟨ds, hds, -⟩ := rtmr0Digests_stored (sampleHash 48) (hsame.trans (hevents 0))
    (hasSha384_of_stored parseEventLog_bareCcel) hcheck hcfv
  rw [computeRtmr0, hds, ok_bind]
  exact ⟨_, rfl⟩

/-- With such events behind the GPT event and without, the registers are computed for every UKI around a kernel. -/
theorem exists_computeAll_sampleBoot_of {uki : Bytes} {more : List BaselineEvent}
    (hmore : ∀ e ∈ more, e.rtmr = 1) (himage : ∃ spans, authenticodeSpans uki = .ok spans)
    (hkernel : ∃ kernel, peExtractSection uki ".linux" true = .ok (some kernel) ∧
      ∃ spans, authenticodeSpans kernel = .ok spans)
    (hsections : ∃ sections, measuredSections uki "RTMR[2]" = .ok sections) :
    ∃ regs, computeAll (sampleHash 48) sampleGuestFirmware uki (sampleBootBaseline more) 4 1 none none none
      = .ok regs := by
  obtain ⟨stream, hstream⟩ := exists_mrtdStream_sampleGuest
  have hmrtd : computeMrtd (sampleHash 48) sampleGuestFirmware (some 4) 1 none
      = .ok (sampleHash 48 stream) := by
    rw [computeMrtd, hstream, ok_bind]
    rfl
  have hgpt : gptEvent (sampleBootBaseline more) = some ⟨1, "EV_EFI_GPT_EVENT", "GPT", hex zeroRtmr⟩ := by
    have hnone : bareBaseline.rtmrEvents 1 = [] := by decide +kernel
    rw [gptEvent, rtmrEvents_sampleBoot, hnone]
    rfl
  refine (computeAll_outcome _ _ _ _ _ _ _ _ _).of_returns
    { arguments := ⟨Or.inl rfl, fun _ h => absurd h (Option.some_ne_none _).symm⟩
      mrtd := (computeMrtd_outcome _ _ _ _ _).returns_of_ok hmrtd
      rtmr0 := exists_computeRtmr0_iff.mp (exists_computeRtmr0_sampleBoot hmore)
      rtmr1 := ⟨⟨_, hgpt, zeroRtmr, fromHex_hex zeroRtmr, List.length_replicate⟩, himage, hkernel⟩
      rtmr2 := hsections }

/-- The kernel of the UKI around the small image. -/
theorem exists_computeAll_sampleBoot (more : List BaselineEvent) (hmore : ∀ e ∈ more, e.rtmr = 1) :
    ∃ regs, computeAll (sampleHash 48) sampleGuestFirmware sampleBootUki (sampleBootBaseline more) 4 1
      none none none = .ok regs := by
  have hkernel : peExtractSection sampleBootUki ".linux" true
      = .ok (some (sampleUki [0x01, 0x02, 0x03, 0x04])) := by decide +kernel
  exact exists_computeAll_sampleBoot_of hmore (exists_of_isOk (by decide +kernel))
    ⟨_, hkernel, exists_of_isOk (by decide +kernel)⟩ (exists_of_isOk (by decide +kernel))

end CvmMeasure.Tdx
