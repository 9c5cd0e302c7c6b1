import CvmMeasure.AzureSnp.Replay
import CvmMeasure.Pe.Uki
import CvmMeasure.Python.Hex

/-! # The vTPM registers

`azure_snp/registers.py`: the PCRs of an Azure SEV-SNP guest that follow from the UKI and the disk.
SHA-256 is an arbitrary function. -/

namespace CvmMeasure.AzureSnp

open Binary Python Pe

section

variable (sha256 : Bytes → Bytes)

/-- `extend`: a single PCR extend. -/
def extend (current digest : Bytes) : Bytes := Hash.extend sha256 current digest

/-- `replay_digests`: replay raw digests from an initial zero state. -/
def replayDigests (digests : List Bytes) : Bytes := Hash.replay sha256 zeroPcr digests

/-- `SEPARATOR_DIGEST`. -/
def separatorDigest : Bytes := sha256 (leBytes 4 0)

/-- `EFI_ACTION_DIGESTS[name]`. -/
def efiActionDigest (name : String) : Bytes := sha256 (asciiBytes name)

/-- `_compute_pcr4`: the boot chain, from the UKI. -/
def computePcr4 (uki : Bytes) : Py String := do
  match ← peExtractSection uki ".linux" true with
  | none =>
    throw (.valueError
      "UKI has no .linux section, so there is no embedded kernel for firmware to measure as the second boot application. PCR 4 for a boot chain like that is not something this tool can reconstruct.")
  | some kernel => do
    let ukiAuth ← peAuthenticodeDigest sha256 uki
    let kernelAuth ← peAuthenticodeDigest sha256 kernel
    pure (hex (replayDigests sha256
      [efiActionDigest sha256 "Calling EFI Application from Boot Option", separatorDigest sha256,
        ukiAuth, kernelAuth]))

/-- `_compute_pcr5`: the partition table, from the disk's GPT. -/
def computePcr5 (gptEventData : Bytes) : String :=
  hex (replayDigests sha256
    [separatorDigest sha256, sha256 gptEventData,
      efiActionDigest sha256 "Exit Boot Services Invocation",
      efiActionDigest sha256 "Exit Boot Services Returned with Success"])

/-- `compute_pcr8`: the CoCo initdata, from its digest, truncated to the register's width. -/
def computePcr8 (initdataDigest : Bytes) : Py String := do
  refuseIf (initdataDigest.length < sha256Size)
    (.valueError
      s!"initdata digest is {initdataDigest.length} bytes, too short for the {sha256Size}-byte value PCR 8 is extended with")
  pure (hex (extend sha256 zeroPcr (initdataDigest.take sha256Size)))

/-- `_compute_pcr9`: the command line and initrd, from the UKI. -/
def computePcr9 (uki : Bytes) : Py String := do
  let cmdline ← ukiCmdline uki
  match ← peExtractSection uki ".initrd" true with
  | none =>
    throw (.valueError
      "UKI has no .initrd section, so the Linux EFI stub measured something other than this tool models into PCR 9.")
  | some initrd => do
    let ucode ← peExtractSection uki ".ucode" true
    pure (hex (replayDigests sha256
      [sha256 (utf16LeEncode cmdline ++ [0x00, 0x00]), sha256 (ucode.getD [] ++ initrd)]))

/-- `_compute_pcr11`: the UKI's identity, from its sections, two events for each. -/
def computePcr11 (uki : Bytes) : Py String := do
  let sections ← measuredSections uki "PCR 11"
  pure (hex (replayDigests sha256 (sectionDigests sha256 sections)))

end

end CvmMeasure.AzureSnp
