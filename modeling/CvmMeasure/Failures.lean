import CvmMeasure.AzureSnp.ComputeAll
import CvmMeasure.AzureSnp.EventLog
import CvmMeasure.Tdx.RegistersOutcome

/-! # How a computation fails

The tool reports a `ValueError` for an input it does not accept. Some lookups and reads could raise something
else: a label that a baseline lacks, a field past the end of an image. Checks in front of them keep that from
happening, whatever the input.

* `onlyValueError_ukiCmdline`, `onlyValueError_computeAll`: the command line of a UKI, and the vTPM registers;
* **`only_valueErrors`**: event logs, baselines and vTPM registers fail with `ValueError` only, and `compute_all`
  for TDX fails with something else exactly where `compute_mrtd` does. -/

namespace CvmMeasure

open Binary Python Pe

/-! ## Other exceptions -/

section

variable {α β : Type} {x : Py α} {f : α → Py β} {e : PyError}

/-- Another exception than those of the first part comes from the second. -/
theorem Python.OnlyValueError.bind_eq_error (hx : OnlyValueError x) (he : ¬ e.IsValueError) :
    (x >>= f) = .error e ↔ ∃ a, x = .ok a ∧ f a = .error e := by
  rw [Python.bind_eq_error]
  exact or_iff_right fun h => he (hx e h)

/-- Another exception than those of the second part comes from the first. -/
theorem bind_eq_error_left (hf : ∀ a, OnlyValueError (f a)) (he : ¬ e.IsValueError) :
    (x >>= f) = .error e ↔ x = .error e := by
  rw [Python.bind_eq_error]
  apply or_iff_left
  rintro ⟨a, -, h⟩
  exact he (hf a e h)

end

/-! ## Images -/

namespace Pe

/-- The command line of a UKI is returned or refused. -/
theorem onlyValueError_ukiCmdline (uki : Bytes) : OnlyValueError (ukiCmdline uki) := by
  refine (onlyValueError_peExtractSection _ _ _).andThen fun raw => ?_
  cases raw with
  | none => exact onlyValueError_throw _
  | some raw =>
    refine (onlyValueError_refuseIf _ _).andThen fun _ => ?_
    split
    · exact onlyValueError_throw _
    · exact onlyValueError_pure _

end Pe

/-! ## The vTPM -/

namespace AzureSnp

variable (sha256 : Bytes → Bytes) (hashNew : String → Bytes → Bytes)

/-- PCR[4] is returned or refused. -/
theorem onlyValueError_computePcr4 (uki : Bytes) : OnlyValueError (computePcr4 sha256 uki) := by
  refine (onlyValueError_peExtractSection _ _ _).andThen fun kernel => ?_
  cases kernel with
  | none => exact onlyValueError_throw _
  | some kernel =>
    exact (onlyValueError_authenticodeDigest _ _).andThen fun _ =>
      (onlyValueError_authenticodeDigest _ _).andThen fun _ => onlyValueError_pure _

/-- PCR[9] is returned or refused. -/
theorem onlyValueError_computePcr9 (uki : Bytes) : OnlyValueError (computePcr9 sha256 uki) := by
  refine (onlyValueError_ukiCmdline uki).andThen fun _ =>
    (onlyValueError_peExtractSection _ _ _).andThen fun initrd => ?_
  cases initrd with
  | none => exact onlyValueError_throw _
  | some initrd => exact (onlyValueError_peExtractSection _ _ _).andThen fun _ => onlyValueError_pure _

/-- An initdata document with another algorithm than required is refused. -/
theorem onlyValueError_computeDigest (data : Bytes) (required : Option String) :
    OnlyValueError (Initdata.computeDigest hashNew data required) := by
  refine (Initdata.onlyValueError_parseAlgorithm data).andThen fun algorithm =>
    OnlyValueError.andThen ?_ fun _ => onlyValueError_pure _
  cases required with
  | none => exact onlyValueError_pure _
  | some required => exact onlyValueError_refuseIf _ _

/-- A text that is no digest is refused. -/
theorem onlyValueError_digestFromHex (value what : String) : OnlyValueError (digestFromHex value what) := by
  unfold digestFromHex
  split
  · exact onlyValueError_throw _
  · exact (onlyValueError_refuseIf _ _).andThen fun _ => onlyValueError_pure _

/-- PCR[8] is taken from one of its two sources, or refused. -/
theorem onlyValueError_resolvePcr8 (initdata : Option Bytes) (pcr8Hex : Option String) :
    OnlyValueError (resolvePcr8 sha256 hashNew initdata pcr8Hex) := by
  refine (onlyValueError_refuseIf _ _).andThen fun _ => ?_
  cases initdata with
  | some data =>
    exact (onlyValueError_computeDigest hashNew data none).andThen fun digest =>
      (onlyValueError_refuseIf _ _).andThen fun _ => onlyValueError_pure _
  | none =>
    cases pcr8Hex with
    | some value => exact (onlyValueError_digestFromHex value "pcr8").andThen fun _ => onlyValueError_pure _
    | none => exact onlyValueError_pure _

/-- **The vTPM registers are returned or refused.** -/
theorem onlyValueError_computeAll (uki gptEventData : Bytes) (initdata : Option Bytes)
    (pcr8Hex : Option String) :
    OnlyValueError (computeAll sha256 hashNew uki gptEventData initdata pcr8Hex) :=
  (onlyValueError_computePcr4 sha256 uki).andThen fun _ =>
    (onlyValueError_resolvePcr8 sha256 hashNew initdata pcr8Hex).andThen fun _ =>
    (onlyValueError_computePcr9 sha256 uki).andThen fun _ =>
    ((onlyValueError_measuredSections uki _).andThen fun _ => onlyValueError_pure _).andThen fun _ =>
    onlyValueError_pure _

end AzureSnp

/-! ## TDX -/

namespace Tdx

variable (sha384 : Bytes → Bytes) (firmware uki : Bytes) (baseline : Baseline) (ramGib numaNodes : Int)
  (maxPerNodeGib : Option Int) (rtmr3Hex gptDigestHex : Option String)

/-- What `compute_all` does behind its arguments. -/
def computeRegisters (rtmr3 : Bytes) : Py ComputedRegisters := do
  let mrtd ← computeMrtd sha384 firmware (some ramGib) numaNodes maxPerNodeGib
  let rtmr0 ← computeRtmr0 sha384 firmware baseline
  let rtmr1 ← computeRtmr1 sha384 uki baseline gptDigestHex
  let rtmr2 ← computeRtmr2 sha384 uki
  pure { mrtd := hex mrtd, rtmr0, rtmr1, rtmr2, rtmr3 := hex rtmr3 }

/-- The arguments come first. -/
theorem computeAll_eq :
    computeAll sha384 firmware uki baseline ramGib numaNodes maxPerNodeGib rtmr3Hex gptDigestHex
      = verifyFirmware sha384 firmware baseline >>= fun _ => givenRtmr3 rtmr3Hex >>=
          computeRegisters sha384 firmware uki baseline ramGib numaNodes maxPerNodeGib gptDigestHex :=
  rfl

/-- **`compute_all` fails with something else than `ValueError` exactly where `compute_mrtd` does.** -/
theorem computeAll_failure {e : PyError} (he : ¬ e.IsValueError) :
    computeAll sha384 firmware uki baseline ramGib numaNodes maxPerNodeGib rtmr3Hex gptDigestHex = .error e ↔
      verifyFirmware sha384 firmware baseline = .ok () ∧ (∃ rtmr3, givenRtmr3 rtmr3Hex = .ok rtmr3) ∧
        computeMrtd sha384 firmware (some ramGib) numaNodes maxPerNodeGib = .error e := by
  -- what stands behind MRTD raises `ValueError` only
  have hbehind : ∀ rtmr3, computeRegisters sha384 firmware uki baseline ramGib numaNodes maxPerNodeGib
      gptDigestHex rtmr3 = .error e ↔
        computeMrtd sha384 firmware (some ramGib) numaNodes maxPerNodeGib = .error e := by
    intro rtmr3
    refine bind_eq_error_left (fun mrtd => ?_) he
    exact (onlyValueError_computeRtmr0 sha384 firmware baseline).andThen fun _ =>
      (onlyValueError_computeRtmr1 sha384 uki baseline gptDigestHex).andThen fun _ =>
      (onlyValueError_computeRtmr2 sha384 uki).andThen fun _ => onlyValueError_pure _
  rw [computeAll_eq, (onlyValueError_verifyFirmware sha384 firmware baseline).bind_eq_error he]
  simp only [(onlyValueError_givenRtmr3 rtmr3Hex).bind_eq_error he, hbehind, exists_and_right]
  apply and_congr_left
  intro _
  constructor
  · rintro ⟨_, hok⟩
    exact hok
  · exact fun hok => ⟨(), hok⟩

end Tdx

/-! ## The tool -/

/-- **What fails, fails with `ValueError`.** For every input the parsers of both event logs, the extraction of
a baseline, `compute_all` for the vTPM and `roothash` return or raise `ValueError`; and `compute_all` for TDX
raises anything else exactly where its arguments pass and `compute_mrtd` raises it. -/
theorem only_valueErrors :
    (∀ data, OnlyValueError (Tdx.parseEventLog data)) ∧
    (∀ data, OnlyValueError (AzureSnp.parseEventLog data)) ∧
    (∀ data machineType, OnlyValueError (Tdx.extractFromCcel data machineType)) ∧
    (∀ sha256 hashNew uki gptEventData initdata pcr8Hex,
      OnlyValueError (AzureSnp.computeAll sha256 hashNew uki gptEventData initdata pcr8Hex)) ∧
    (∀ uki, OnlyValueError (AzureSnp.roothash uki)) ∧
    ∀ sha384 firmware uki baseline ramGib numaNodes maxPerNodeGib rtmr3Hex gptDigestHex e,
      Tdx.computeAll sha384 firmware uki baseline ramGib numaNodes maxPerNodeGib rtmr3Hex gptDigestHex
          = .error e ∧ ¬ e.IsValueError ↔
        Tdx.verifyFirmware sha384 firmware baseline = .ok () ∧
          (∃ rtmr3, Tdx.givenRtmr3 rtmr3Hex = .ok rtmr3) ∧
          Tdx.computeMrtd sha384 firmware (some ramGib) numaNodes maxPerNodeGib = .error e ∧
          ¬ e.IsValueError := by
  have hccel : ∀ data, OnlyValueError (Tdx.parseEventLog data) := fun _ _ h => Tdx.parseEventLog_raises h
  refine ⟨hccel, fun _ _ h => AzureSnp.parseEventLog_raises h, fun data _ => ?_,
    AzureSnp.onlyValueError_computeAll, fun uki => ?_, ?_⟩
  · exact (hccel data).andThen fun _ => onlyValueError_pure _
  · exact (onlyValueError_ukiCmdline uki).andThen fun _ => onlyValueError_pure _
  · intro sha384 firmware uki baseline ramGib numaNodes maxPerNodeGib rtmr3Hex gptDigestHex e
    constructor
    · rintro ⟨h, he⟩
      obtain ⟨hverify, hrtmr3, hmrtd⟩ := (Tdx.computeAll_failure _ _ _ _ _ _ _ _ _ he).mp h
      exact ⟨hverify, hrtmr3, hmrtd, he⟩
    · rintro ⟨hverify, hrtmr3, hmrtd, he⟩
      exact ⟨(Tdx.computeAll_failure _ _ _ _ _ _ _ _ _ he).mpr ⟨hverify, hrtmr3, hmrtd⟩, he⟩

end CvmMeasure
