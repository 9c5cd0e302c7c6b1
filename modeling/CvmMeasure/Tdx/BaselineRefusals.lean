import CvmMeasure.Tdx.BaselineCoverage
import CvmMeasure.Tdx.RegistersOutcome

/-! # What `compute_all` does not refuse

A baseline with an event that no register is extended with should be refused. RTMR[0] checks its events, but
nothing looks at those of the other registers behind the GPT event.

* **`Accounts`**: the registers replay each event of the baseline once, and nothing else but what the tool
  computes or is given;
* **`NeverIgnores`**: what is returned accounts for every event, and a baseline with another one is refused;
* **`neverIgnores_iff`**: this is so exactly on the baselines without such an event, and on inputs that are
  refused for another reason; `not_neverIgnores_bootOrder` is an input of neither kind. -/

namespace CvmMeasure.Tdx

open Binary Python Pe Hash

section

variable {sha384 : Bytes → Bytes} {firmware uki : Bytes} {baseline : Baseline} {ramGib numaNodes : Int}
  {maxPerNodeGib : Option Int} {rtmr3Hex gptDigestHex : Option String} {regs : ComputedRegisters}

/-- **The registers account for the baseline**: they are the replays of their extends, and of each register
the baseline's events are, up to order, those among its extends and the GPT event that is superseded. -/
def Accounts (sha384 : Bytes → Bytes) (firmware uki : Bytes) (baseline : Baseline)
    (rtmr3Hex gptDigestHex : Option String) (regs : ComputedRegisters) : Prop :=
  ∃ c, Replays sha384 firmware uki baseline rtmr3Hex gptDigestHex regs c ∧
    ∀ rtmr, (baseline.rtmrEvents rtmr).Perm
      (recordedEvents (registerExtends sha384 c baseline gptDigestHex rtmr)
        ++ supersededAt baseline gptDigestHex rtmr)

/-- What is asked of the tool: a result accounts for every event of the baseline, and a baseline with
an event that would be left out is refused with `ValueError`. -/
structure NeverIgnores (sha384 : Bytes → Bytes) (firmware uki : Bytes) (baseline : Baseline)
    (ramGib numaNodes : Int) (maxPerNodeGib : Option Int) (rtmr3Hex gptDigestHex : Option String) : Prop where
  accounts : ∀ regs, computeAll sha384 firmware uki baseline ramGib numaNodes maxPerNodeGib rtmr3Hex gptDigestHex
    = .ok regs → Accounts sha384 firmware uki baseline rtmr3Hex gptDigestHex regs
  refuses : ¬ EveryEventExtended baseline gptDigestHex →
    ∃ message, computeAll sha384 firmware uki baseline ramGib numaNodes maxPerNodeGib rtmr3Hex gptDigestHex
      = .error (.valueError message)

/-- What is returned accounts for the baseline exactly if every event is extended. -/
theorem accounts_iff
    (h : computeAll sha384 firmware uki baseline ramGib numaNodes maxPerNodeGib rtmr3Hex gptDigestHex = .ok regs) :
    Accounts sha384 firmware uki baseline rtmr3Hex gptDigestHex regs ↔ EveryEventExtended baseline gptDigestHex := by
  simp only [Accounts, recordedEvents_registerExtends]
  constructor
  · rintro ⟨_, -, hevents⟩
    exact hevents
  · intro hevents
    obtain ⟨c, hreplays⟩ := computeAll_replays h
    exact ⟨c, hreplays, hevents⟩

/-- **When the tool accounts for every baseline event**: exactly if the baseline holds nothing but RTMR[0]
events, no two of them with one fixed label, and at most one GPT event of RTMR[1]; or if the inputs are refused
for another reason, which is to say that they are not accepted and MRTD does not fail behind arguments that
pass. -/
theorem neverIgnores_iff (sha384 : Bytes → Bytes) (firmware uki : Bytes) (baseline : Baseline)
    (ramGib numaNodes : Int) (maxPerNodeGib : Option Int) (rtmr3Hex gptDigestHex : Option String) :
    NeverIgnores sha384 firmware uki baseline ramGib numaNodes maxPerNodeGib rtmr3Hex gptDigestHex ↔
      (NothingElse baseline ∧ FixedOnce (baseline.rtmrEvents 0)) ∨
      (¬ Accepted sha384 firmware uki baseline ramGib numaNodes maxPerNodeGib rtmr3Hex gptDigestHex ∧
        ¬ (ArgumentsPass sha384 firmware baseline rtmr3Hex ∧
          (Overflows firmware (some ramGib) numaNodes maxPerNodeGib ∨
            Exceeds firmware (some ramGib) numaNodes maxPerNodeGib))) := by
  have houtcome := computeAll_outcome sha384 firmware uki baseline ramGib numaNodes maxPerNodeGib rtmr3Hex
    gptDigestHex
  rw [← everyEventExtended_iff gptDigestHex, and_or_left, not_or, ← houtcome.iff_refused]
  constructor
  · intro hnever
    by_cases hevery : EveryEventExtended baseline gptDigestHex
    · exact Or.inl hevery
    · exact Or.inr (hnever.refuses hevery)
  · rintro (hevery | ⟨message, hrefused⟩)
    · exact ⟨fun regs h => (accounts_iff h).mpr hevery, fun hleft => absurd hevery hleft⟩
    · refine ⟨fun regs h => ?_, fun _ => ⟨message, hrefused⟩⟩
      cases h.symm.trans hrefused

end

/-- A boot variable measured into RTMR[1]. -/
def bootOrderEvent : BaselineEvent :=
  ⟨1, "EV_EFI_VARIABLE_BOOT", "BootOrder", hex (List.replicate sha384Size 0xCC)⟩

/-- **A boot variable behind the GPT event is ignored**: the registers are computed all the same. -/
theorem not_neverIgnores_bootOrder :
    ¬ NeverIgnores (sampleHash 48) sampleGuestFirmware sampleBootUki
      (sampleBootBaseline [bootOrderEvent]) 4 1 none none none := by
  intro h
  obtain ⟨regs, hregs⟩ := exists_computeAll_sampleBoot [bootOrderEvent] (by decide)
  have hone := ((accounts_iff hregs).mp (h.accounts regs hregs) 1).length_eq
  exact absurd hone (by decide +kernel)

end CvmMeasure.Tdx
