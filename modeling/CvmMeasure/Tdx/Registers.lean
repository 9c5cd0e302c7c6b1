import CvmMeasure.Pe.Uki
import CvmMeasure.Tdx.Baseline
import CvmMeasure.Tdx.Mrtd
import CvmMeasure.Tdx.Rtmr
import CvmMeasure.Tdx.Uefi

/-! # The TDX registers

`tdx/registers.py`: MRTD and RTMR[0] to RTMR[3], computed offline from firmware, baseline and UKI.
SHA-384 is an arbitrary function. -/

namespace CvmMeasure.Tdx

open Binary Python Pe

/-- `_RTMR0_FIXED_LABELS`: events that occupy a fixed slot in the replay, addressed by label. -/
def rtmr0FixedLabels : List String := ["TdxTable", "PK", "KEK", "db", "dbx"]

/-- `_RTMR0_TRAILING_LABELS`: the remaining events, replayed positionally. -/
def rtmr0TrailingLabels : List String :=
  ["ACPI_DATA", "ACPI_DATA", "ACPI_DATA", "BootOrder", "Boot0001", "Boot0002", "Boot0003",
    "Boot0000"]

/-- The labels of all RTMR[0] events of a baseline. -/
def rtmr0ExpectedLabels : List String := rtmr0FixedLabels ++ rtmr0TrailingLabels

/-- `_GPT_LABELS`: labels a baseline may use for the GPT digest. -/
def gptLabels : List String := ["GPT", "EV_EFI_GPT_EVENT"]

/-- `repr` of a list of strings. -/
def reprTexts (texts : List String) : String := "[" ++ ", ".intercalate (texts.map reprText) ++ "]"

/-- `_digest_from_hex`: decode a SHA-384 hex string, rejecting anything else. -/
def digestFromHex (value what : String) : Py Bytes :=
  match fromHex? value with
  | none => throw (.valueError s!"{what} is not valid hex: {reprText value}")
  | some raw => do
    refuseIf (raw.length ≠ sha384Size)
      (.valueError
        s!"{what} must be a {sha384Size}-byte SHA-384 digest ({sha384Size * 2} hex chars), got {raw.length} bytes")
    pure raw

/-- `sorted(labels)`. -/
def sortLabels (labels : List String) : List String := labels.insertionSort (· ≤ ·)

/-- `by_label[label]`: `setdefault` keeps the digest of the first event with a label. -/
def digestByLabel (events : List BaselineEvent) (label : String) : Option String :=
  (events.find? fun e => e.label == label).map BaselineEvent.digest

/-- `_digest_from_hex(by_label[label], ...)`. -/
def fixedDigest (events : List BaselineEvent) (label : String) : Py Bytes :=
  match digestByLabel events label with
  | none => throw (.keyError label)
  | some digest => digestFromHex digest ("baseline " ++ label ++ " digest")

/-- The digests of the trailing events, in baseline order. -/
def trailingDigests : List BaselineEvent → Py (List Bytes)
  | [] => pure []
  | e :: es => do
    let digest ← digestFromHex e.digest ("baseline " ++ e.label ++ " digest")
    let rest ← trailingDigests es
    pure (digest :: rest)

section

variable (sha384 : Bytes → Bytes)

/-- `SEPARATOR_DIGEST`. -/
def separatorDigest : Bytes := sha384 (leBytes 4 0)

/-- `EFI_ACTION_DIGESTS[name]`. -/
def efiActionDigest (name : String) : Bytes := sha384 (asciiBytes name)

/-- `_verify_firmware`: refuse to mix a baseline with firmware it was not captured from. -/
def verifyFirmware (firmware : Bytes) (baseline : Baseline) : Py Unit :=
  if baseline.firmwareSha384 = "" then pure ()
  else
    refuseIf (hex (sha384 firmware) ≠ baseline.firmwareSha384.toLower)
      (.valueError
        s!"Baseline {reprText baseline.machineType} was captured from different firmware: baseline records {baseline.firmwareSha384}, the given firmware hashes to {hex (sha384 firmware)}")

/-- The SecureBoot data `_compute_rtmr0` measures. -/
def securebootFlag (enabled : Bool) : Bytes := if enabled then [0x01] else [0x00]

/-- The baseline events behind the fixed ones. -/
def trailingEvents (events : List BaselineEvent) : List BaselineEvent :=
  events.filter fun e => e.label ∉ rtmr0FixedLabels

/-- The checks `_compute_rtmr0` makes of the RTMR[0] events of a baseline. -/
def checkRtmr0Events (machineType : String) (events : List BaselineEvent) : Py Unit := do
  let missing := rtmr0FixedLabels.filter fun label => (digestByLabel events label).isNone
  refuseIf (missing ≠ [])
    (.valueError ("RTMR[0] baseline is missing required event(s): " ++ ", ".intercalate missing))
  let labels := events.map BaselineEvent.label
  refuseIf (sortLabels labels ≠ sortLabels rtmr0ExpectedLabels)
    (.valueError
      s!"RTMR[0] baseline for {reprText machineType} does not match the only supported event set. Expected {reprTexts rtmr0ExpectedLabels}, got {reprTexts labels}. Reconstructing other firmware needs an ordered CCEL template.")
  let trailing := (trailingEvents events).map BaselineEvent.label
  refuseIf (trailing ≠ rtmr0TrailingLabels)
    (.valueError
      s!"RTMR[0] baseline events are in an unsupported order: expected {reprTexts rtmr0TrailingLabels} after the Secure Boot variables, got {reprTexts trailing}. These are replayed positionally, so the order has to match the firmware that produced them.")

/-- The sixteen digests `_compute_rtmr0` replays. -/
def rtmr0Digests (firmware : Bytes) (baseline : Baseline) : Py (List Bytes) := do
  let events := baseline.rtmrEvents 0
  checkRtmr0Events baseline.machineType events
  let cfv ← cfvImage firmware
  let sbFlagDigest ←
    computeSecurebootDigest sha384 "SecureBoot" (securebootFlag baseline.securebootEnabled)
  let tdxTable ← fixedDigest events "TdxTable"
  let pk ← fixedDigest events "PK"
  let kek ← fixedDigest events "KEK"
  let db ← fixedDigest events "db"
  let dbx ← fixedDigest events "dbx"
  let trailing ← trailingDigests (trailingEvents events)
  pure ([tdxTable, sha384 cfv, sbFlagDigest, pk, kek, db, dbx, separatorDigest sha384] ++ trailing)

/-- `_compute_rtmr0`: RTMR[0] from firmware and baseline events. -/
def computeRtmr0 (firmware : Bytes) (baseline : Baseline) : Py String := do
  let digests ← rtmr0Digests sha384 firmware baseline
  pure (hex (replayDigests sha384 digests))

/-- The GPT digest of `_compute_rtmr1`: given, or from the baseline. -/
def gptDigest (baseline : Baseline) (gptDigestHex : Option String) : Py Bytes :=
  match gptDigestHex with
  | some value => digestFromHex value "GPT digest"
  | none =>
    match (baseline.rtmrEvents 1).find? fun e => e.label ∈ gptLabels with
    | none =>
      throw (.valueError
        "RTMR[1] requires the EV_EFI_GPT_EVENT digest, which depends on the disk layout. Pass --disk to compute it from the pod VM image, or use a legacy baseline that still carries a GPT event.")
    | some event => digestFromHex event.digest "baseline GPT digest"

/-- `_compute_rtmr1`: RTMR[1] from UKI and baseline. -/
def computeRtmr1 (uki : Bytes) (baseline : Baseline) (gptDigestHex : Option String) : Py String := do
  let gpt ← gptDigest baseline gptDigestHex
  let ukiAuth ← peAuthenticodeDigest sha384 uki
  match ← peExtractSection uki ".linux" true with
  | none =>
    throw (.valueError
      "UKI has no .linux section, so there is no embedded kernel for firmware to measure as the second boot application. RTMR[1] for a boot chain like that is not something this tool can reconstruct.")
  | some kernel => do
    let kernelAuth ← peAuthenticodeDigest sha384 kernel
    pure (hex (replayDigests sha384
      [efiActionDigest sha384 "Calling EFI Application from Boot Option", separatorDigest sha384, gpt,
        ukiAuth, kernelAuth, efiActionDigest sha384 "Exit Boot Services Invocation",
        efiActionDigest sha384 "Exit Boot Services Returned with Success"]))

/-- `_compute_rtmr2`: RTMR[2] from the UKI's sections, two events for each. -/
def computeRtmr2 (uki : Bytes) : Py String := do
  let sections ← measuredSections uki "RTMR[2]"
  pure (hex (replayDigests sha384 (sectionDigests sha384 sections)))

/-- `ComputedRegisters`. -/
structure ComputedRegisters where
  mrtd : String
  rtmr0 : String
  rtmr1 : String
  rtmr2 : String
  rtmr3 : String
  deriving DecidableEq, Repr

/-- `as_dict`. -/
def ComputedRegisters.asDict (regs : ComputedRegisters) : Dict String String :=
  [("mrtd", regs.mrtd), ("rtmr0", regs.rtmr0), ("rtmr1", regs.rtmr1), ("rtmr2", regs.rtmr2),
    ("rtmr3", regs.rtmr3)]

/-- RTMR[3] as `compute_all` takes it: zeros, or the value given. -/
def givenRtmr3 : Option String → Py Bytes
  | none => pure zeroRtmr
  | some value => digestFromHex value "rtmr3"

/-- `compute_all`: MRTD and RTMR[0] to RTMR[3]. -/
def computeAll (firmware uki : Bytes) (baseline : Baseline) (ramGib : Int) (numaNodes : Int)
    (maxPerNodeGib : Option Int) (rtmr3Hex gptDigestHex : Option String) : Py ComputedRegisters := do
  verifyFirmware sha384 firmware baseline
  let rtmr3 ← givenRtmr3 rtmr3Hex
  let mrtd ← computeMrtd sha384 firmware (some ramGib) numaNodes maxPerNodeGib
  let rtmr0 ← computeRtmr0 sha384 firmware baseline
  let rtmr1 ← computeRtmr1 sha384 uki baseline gptDigestHex
  let rtmr2 ← computeRtmr2 sha384 uki
  pure { mrtd := hex mrtd, rtmr0, rtmr1, rtmr2, rtmr3 := hex rtmr3 }

end

end CvmMeasure.Tdx
