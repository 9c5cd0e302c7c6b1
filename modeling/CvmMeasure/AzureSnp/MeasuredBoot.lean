import CvmMeasure.AzureSnp.ComputeAll
import CvmMeasure.Hash.Commitment
import CvmMeasure.ReplayFold
import CvmMeasure.SectionBinding
import CvmMeasure.SignedRegisters

/-! # What a guest's vTPM commits to

The registers the tool computes for an image, the registers it replays from a log, and the image itself,
related. What firmware, stub and kernel hash of an image is a `MeasuredBoot`: its Authenticode streams,
its partition table, its command line, its initrd and its sections.

* **`MeasuredBoot`**, **`MeasuredBoot.payloads`**: the hashed parts of an image, and the payloads of
  each register;
* **`ReadFrom`**, **`computeAll_eq_ok`**: `compute_all` commits to the payloads of what it reads;
* **`computeAll_agrees_iff`**: a log replays to the computed registers exactly if its digests are those
  of the payloads, register by register, in whatever order the registers are interleaved;
* **`computeAll_binding`**: equal registers mean equal boots. -/

namespace CvmMeasure.AzureSnp

open Binary Python Pe Hash Tcg

/-- The registers that follow from the image. -/
def imagePcrs : List Int := [4, 5, 9, 11]

/-- **The parts of an image that are hashed into its registers.** -/
structure MeasuredBoot where
  /-- The Authenticode stream of the UKI. -/
  uki : Bytes
  /-- The Authenticode stream of the kernel embedded in it. -/
  kernel : Bytes
  gpt : Bytes
  cmdline : List Char
  /-- The blob handed to the kernel, microcode first. -/
  initrd : Bytes
  sections : List (String × Bytes)
  canonical : ∀ s ∈ sections, s.1 ∈ ukiMeasuredSections

namespace MeasuredBoot

/-- The payloads whose hashes a register is extended with. -/
def payloads (boot : MeasuredBoot) (pcr : Int) : List Bytes :=
  if pcr = 4 then
    [asciiBytes "Calling EFI Application from Boot Option", leBytes 4 0, boot.uki, boot.kernel]
  else if pcr = 5 then
    [leBytes 4 0, boot.gpt, asciiBytes "Exit Boot Services Invocation",
      asciiBytes "Exit Boot Services Returned with Success"]
  else if pcr = 9 then [utf16LeEncode boot.cmdline ++ [0x00, 0x00], boot.initrd]
  else if pcr = 11 then sectionHashInputs boot.sections
  else []

/-- PCR 4 measures the call of the boot option, a separator, the UKI and its kernel. -/
@[simp] theorem payloads_four (boot : MeasuredBoot) : boot.payloads 4
    = [asciiBytes "Calling EFI Application from Boot Option", leBytes 4 0, boot.uki, boot.kernel] := rfl

/-- PCR 5 measures a separator, the partition table and the two calls of ExitBootServices. -/
@[simp] theorem payloads_five (boot : MeasuredBoot) : boot.payloads 5
    = [leBytes 4 0, boot.gpt, asciiBytes "Exit Boot Services Invocation",
      asciiBytes "Exit Boot Services Returned with Success"] := rfl

/-- PCR 9 measures the command line and the initrd. -/
@[simp] theorem payloads_nine (boot : MeasuredBoot) :
    boot.payloads 9 = [utf16LeEncode boot.cmdline ++ [0x00, 0x00], boot.initrd] := rfl

/-- PCR 11 measures the sections. -/
@[simp] theorem payloads_eleven (boot : MeasuredBoot) :
    boot.payloads 11 = sectionHashInputs boot.sections := rfl

/-- **The payloads determine the boot.** -/
theorem eq_of_payloads {boot boot' : MeasuredBoot}
    (h : ∀ pcr ∈ imagePcrs, boot.payloads pcr = boot'.payloads pcr) : boot = boot' := by
  have h4 := h 4 (by decide)
  have h5 := h 5 (by decide)
  have h9 := h 9 (by decide)
  have h11 := h 11 (by decide)
  simp only [payloads_four, payloads_five, payloads_nine, payloads_eleven, List.cons.injEq] at h4 h5 h9 h11
  obtain ⟨-, -, huki, hkernel, -⟩ := h4
  obtain ⟨-, hgpt, -⟩ := h5
  obtain ⟨hcmdline, hinitrd, -⟩ := h9
  have hcmdline : boot.cmdline = boot'.cmdline := by
    rw [← utf16LeDecode_utf16LeEncode boot.cmdline, List.append_cancel_right hcmdline,
      utf16LeDecode_utf16LeEncode]
  have hsections := sectionHashInputs_injective boot.canonical boot'.canonical h11
  cases boot
  cases boot'
  simp_all

end MeasuredBoot

/-- The blob of microcode and initrd that the stub hands the kernel. -/
def InitrdBlob (uki blob : Bytes) : Prop :=
  ∃ initrd ucode, peExtractSection uki ".initrd" true = .ok (some initrd) ∧
    peExtractSection uki ".ucode" true = .ok ucode ∧ blob = ucode.getD [] ++ initrd

/-- **The image holds what the boot measures.** -/
structure ReadFrom (uki gptEventData : Bytes) (boot : MeasuredBoot) : Prop where
  uki_eq : authenticodeStream uki = .ok boot.uki
  kernel_eq : ∃ kernel, peExtractSection uki ".linux" true = .ok (some kernel) ∧
    authenticodeStream kernel = .ok boot.kernel
  gpt_eq : boot.gpt = gptEventData
  cmdline_eq : ukiCmdline uki = .ok boot.cmdline
  initrd_eq : InitrdBlob uki boot.initrd
  sections_eq : measuredSections uki "PCR 11" = .ok boot.sections

/-- A computed register, by its index. -/
def ComputedPcrs.value (pcrs : ComputedPcrs) (pcr : Int) : String :=
  if pcr = 4 then pcrs.pcr4 else if pcr = 5 then pcrs.pcr5 else if pcr = 8 then pcrs.pcr8
  else if pcr = 9 then pcrs.pcr9 else if pcr = 11 then pcrs.pcr11 else ""

section

variable {sha256 : Bytes → Bytes} {hashNew : String → Bytes → Bytes} {uki uki' gpt gpt' : Bytes}
  {initdata initdata' : Option Bytes} {pcr8Hex pcr8Hex' : Option String} {pcrs pcrs' : ComputedPcrs}

/-! ## The recipes -/

/-- The Authenticode digest is the hash of the stream. -/
theorem peAuthenticodeDigest_eq_ok {hash : Bytes → Bytes} {pe digest : Bytes} :
    peAuthenticodeDigest hash pe = .ok digest ↔
      ∃ stream, authenticodeStream pe = .ok stream ∧ hash stream = digest := by
  simp only [peAuthenticodeDigest, bind_eq_ok, pure_eq_ok]

/-- PCR 4 commits to its payloads. -/
theorem computePcr4_eq_ok {value : String} : computePcr4 sha256 uki = .ok value ↔
    ∃ kernel ukiStream kernelStream, peExtractSection uki ".linux" true = .ok (some kernel) ∧
      authenticodeStream uki = .ok ukiStream ∧ authenticodeStream kernel = .ok kernelStream ∧
      value = hex (commit sha256 zeroPcr [asciiBytes "Calling EFI Application from Boot Option",
        leBytes 4 0, ukiStream, kernelStream]) := by
  rw [computePcr4, bind_eq_ok]
  constructor
  · rintro ⟨kernel, hkernel, h⟩
    cases kernel with
    | none => exact absurd h throw_ne_ok
    | some kernel =>
      simp only [bind_eq_ok, pure_eq_ok, peAuthenticodeDigest_eq_ok] at h
      obtain ⟨_, ⟨s, hs, rfl⟩, _, ⟨k, hk, rfl⟩, rfl⟩ := h
      exact ⟨kernel, s, k, hkernel, hs, hk, rfl⟩
  · rintro ⟨kernel, s, k, hkernel, hs, hk, rfl⟩
    refine ⟨some kernel, hkernel, ?_⟩
    simp only [bind_eq_ok, pure_eq_ok, peAuthenticodeDigest_eq_ok]
    exact ⟨_, ⟨s, hs, rfl⟩, _, ⟨k, hk, rfl⟩, rfl⟩

/-- So does PCR 5, which is always computed, -/
theorem computePcr5_eq (gpt : Bytes) : computePcr5 sha256 gpt
    = hex (commit sha256 zeroPcr [leBytes 4 0, gpt, asciiBytes "Exit Boot Services Invocation",
      asciiBytes "Exit Boot Services Returned with Success"]) := rfl

/-- PCR 9, -/
theorem computePcr9_eq_ok {value : String} : computePcr9 sha256 uki = .ok value ↔
    ∃ cmdline blob, ukiCmdline uki = .ok cmdline ∧ InitrdBlob uki blob ∧
      value = hex (commit sha256 zeroPcr [utf16LeEncode cmdline ++ [0x00, 0x00], blob]) := by
  rw [computePcr9, bind_eq_ok]
  constructor
  · rintro ⟨cmdline, hcmdline, h⟩
    obtain ⟨initrd, hinitrd, h⟩ := bind_eq_ok.mp h
    cases initrd with
    | none => exact absurd h throw_ne_ok
    | some initrd =>
      simp only [bind_eq_ok, pure_eq_ok] at h
      obtain ⟨ucode, hucode, rfl⟩ := h
      exact ⟨cmdline, _, hcmdline, ⟨initrd, ucode, hinitrd, hucode, rfl⟩, rfl⟩
  · rintro ⟨cmdline, _, hcmdline, ⟨initrd, ucode, hinitrd, hucode, rfl⟩, rfl⟩
    refine ⟨cmdline, hcmdline, bind_eq_ok.mpr ⟨some initrd, hinitrd, ?_⟩⟩
    simp only [bind_eq_ok, pure_eq_ok]
    exact ⟨ucode, hucode, rfl⟩

/-- and PCR 11. -/
theorem computePcr11_eq_ok {value : String} : computePcr11 sha256 uki = .ok value ↔
    ∃ sections, measuredSections uki "PCR 11" = .ok sections ∧
      value = hex (commit sha256 zeroPcr (sectionHashInputs sections)) := by
  simp only [computePcr11, bind_eq_ok, pure_eq_ok]
  exact exists_congr fun sections => and_congr_right fun _ => eq_comm

/-- **`compute_all` commits to what it reads**: the image registers are chains over the payloads of
the boot that the image holds. -/
theorem computeAll_eq_ok : computeAll sha256 hashNew uki gpt initdata pcr8Hex = .ok pcrs ↔
    resolvePcr8 sha256 hashNew initdata pcr8Hex = .ok pcrs.pcr8 ∧
      ∃ boot, ReadFrom uki gpt boot ∧
        ∀ pcr ∈ imagePcrs, pcrs.value pcr = hex (commit sha256 zeroPcr (boot.payloads pcr)) := by
  simp only [computeAll, bind_eq_ok, pure_eq_ok, computePcr4_eq_ok, computePcr9_eq_ok,
    computePcr11_eq_ok]
  constructor
  · rintro ⟨_, ⟨kernel, s, k, hkernel, hs, hk, rfl⟩, _, hpcr8, _,
      ⟨cmdline, blob, hcmdline, hblob, rfl⟩, _, ⟨sections, hsections, rfl⟩, rfl⟩
    refine ⟨hpcr8, ⟨s, k, gpt, cmdline, blob, sections, measuredSections_names hsections⟩,
      ⟨hs, ⟨kernel, hkernel, hk⟩, rfl, hcmdline, hblob, hsections⟩, ?_⟩
    simp only [imagePcrs, List.forall_mem_cons]
    exact ⟨rfl, rfl, rfl, rfl, fun _ h => absurd h List.not_mem_nil⟩
  · rintro ⟨hpcr8, boot, hread, hvalues⟩
    obtain ⟨kernel, hkernel, hk⟩ := hread.kernel_eq
    simp only [imagePcrs, List.forall_mem_cons] at hvalues
    obtain ⟨h4, h5, h9, h11, -⟩ := hvalues
    have hpcr5 : computePcr5 sha256 gpt = pcrs.pcr5 := by
      rw [computePcr5_eq, ← hread.gpt_eq]
      exact h5.symm
    refine ⟨pcrs.pcr4, ⟨kernel, _, _, hkernel, hread.uki_eq, hk, h4⟩, pcrs.pcr8, hpcr8, pcrs.pcr9,
      ⟨_, _, hread.cmdline_eq, hread.initrd_eq, h9⟩, pcrs.pcr11,
      ⟨_, hread.sections_eq, h11⟩, ?_⟩
    rw [hpcr5]

/-- The registers of the small UKI are computed. -/
theorem exists_computeAll_sampleBoot : ∃ pcrs,
    computeAll (sampleHash 32) (fun _ => sampleHash 48) sampleBootImage [0xD1] none none
      = .ok pcrs :=
  exists_of_isOk (by decide +kernel)

/-! ## A log and an image -/

/-- A register as a replay of the log leaves it; one that no event touches holds zeros. -/
def replayedPcr (sha256 : Bytes → Bytes) (log : ParsedEventLog) (pcr : Int) : Bytes :=
  ((replayEventLog sha256 log tpmAlgSha256).get? pcr).getD zeroPcr

/-- A replayed PCR is the fold of its digests. -/
theorem replayedPcr_eq (log : ParsedEventLog) (pcr : Int) : replayedPcr sha256 log pcr
    = replay sha256 zeroPcr (registerDigests tpmAlgSha256 pcr log.events) := by
  rw [replayedPcr, replayEventLog_eq_fold]
  by_cases hnone : registerDigests tpmAlgSha256 pcr log.events = []
  · rw [if_pos hnone, hnone]
    rfl
  · rw [if_neg hnone]
    rfl

/-- **The log measures the boot**: on each image register its digests are those of the payloads, none
missing, none added and in order. -/
def LogMeasures (sha256 : Bytes → Bytes) (log : ParsedEventLog) (boot : MeasuredBoot) : Prop :=
  ∀ pcr ∈ imagePcrs,
    registerDigests tpmAlgSha256 pcr log.events = (boot.payloads pcr).map sha256

/-- What is hashed to replay the log and to compute the image registers. -/
def comparedInputs (sha256 : Bytes → Bytes) (log : ParsedEventLog) (boot : MeasuredBoot) :
    List Bytes :=
  imagePcrs.flatMap fun pcr =>
    replayInputs sha256 zeroPcr (registerDigests tpmAlgSha256 pcr log.events)
      ++ commitInputs sha256 zeroPcr (boot.payloads pcr)

/-- A register as a replay leaves it, against the register of the payloads. -/
theorem agrees_iff_measures (hlen : ∀ x, (sha256 x).length = sha256Size) {boot : MeasuredBoot}
    (hvalues : ∀ pcr ∈ imagePcrs, pcrs.value pcr = hex (commit sha256 zeroPcr (boot.payloads pcr)))
    (log : ParsedEventLog) :
    (LogMeasures sha256 log boot → ∀ pcr ∈ imagePcrs, hex (replayedPcr sha256 log pcr) = pcrs.value pcr) ∧
      ((∀ pcr ∈ imagePcrs, hex (replayedPcr sha256 log pcr) = pcrs.value pcr) →
        UpTo sha256 zeroPcr (comparedInputs sha256 log boot) (LogMeasures sha256 log boot)) := by
  constructor
  · intro hmeasures pcr hpcr
    rw [hvalues pcr hpcr, replayedPcr_eq, hmeasures pcr hpcr, commit]
  · intro hagree
    refine UpTo.forall_mem fun pcr hpcr => ?_
    have hends := (hagree pcr hpcr).trans (hvalues pcr hpcr)
    rw [replayedPcr_eq] at hends
    refine (chain_eq_commit hlen (List.length_replicate ..) (hex_injective hends)).mono ?_
    exact fun x hx => List.mem_flatMap.mpr ⟨pcr, hpcr, hx⟩

/-- **Replayed and computed registers agree exactly on the logs that measure the image.** Where
`compute_all` returns, the boot it reads off the image is measured by a log if and, up to a failure of
the hash on the inputs evaluated, only if the log replays to the computed PCR 4, 5, 9 and 11. -/
theorem computeAll_agrees_iff (hlen : ∀ x, (sha256 x).length = sha256Size)
    (hcompute : computeAll sha256 hashNew uki gpt initdata pcr8Hex = .ok pcrs) :
    ∃ boot, ReadFrom uki gpt boot ∧ ∀ log : ParsedEventLog,
      (LogMeasures sha256 log boot →
        ∀ pcr ∈ imagePcrs, hex (replayedPcr sha256 log pcr) = pcrs.value pcr) ∧
      ((∀ pcr ∈ imagePcrs, hex (replayedPcr sha256 log pcr) = pcrs.value pcr) →
        UpTo sha256 zeroPcr (comparedInputs sha256 log boot) (LogMeasures sha256 log boot)) := by
  obtain ⟨-, boot, hread, hvalues⟩ := computeAll_eq_ok.mp hcompute
  exact ⟨boot, hread, agrees_iff_measures hlen hvalues⟩

/-- The small UKI has a boot that the logs of its registers measure. -/
theorem computeAll_agrees_iff_sample :
    ∃ (pcrs : ComputedPcrs) (boot : MeasuredBoot), ReadFrom sampleBootImage [0xD1] boot ∧ ∀ log : ParsedEventLog,
      (LogMeasures (sampleHash 32) log boot →
        ∀ pcr ∈ imagePcrs, hex (replayedPcr (sampleHash 32) log pcr) = pcrs.value pcr) ∧
      ((∀ pcr ∈ imagePcrs, hex (replayedPcr (sampleHash 32) log pcr) = pcrs.value pcr) →
        UpTo (sampleHash 32) zeroPcr (comparedInputs (sampleHash 32) log boot)
          (LogMeasures (sampleHash 32) log boot)) := by
  obtain ⟨pcrs, hpcrs⟩ := exists_computeAll_sampleBoot
  exact ⟨pcrs, computeAll_agrees_iff (length_sampleHash 32) hpcrs⟩

/-! ## Two images -/

/-- What is hashed to compute the image registers. -/
def bootInputs (sha256 : Bytes → Bytes) (boot : MeasuredBoot) : List Bytes :=
  imagePcrs.flatMap fun pcr => commitInputs sha256 zeroPcr (boot.payloads pcr)

/-- **The image registers bind the boot.** Two images with the same PCR 4, 5, 9 and 11 have the same
Authenticode streams of UKI and kernel, partition table, command line, initrd and sections, up to a
failure of the hash on the inputs evaluated. -/
theorem computeAll_binding (hlen : ∀ x, (sha256 x).length = sha256Size)
    (h : computeAll sha256 hashNew uki gpt initdata pcr8Hex = .ok pcrs)
    (h' : computeAll sha256 hashNew uki' gpt' initdata' pcr8Hex' = .ok pcrs')
    (hsame : ∀ pcr ∈ imagePcrs, pcrs.value pcr = pcrs'.value pcr) :
    ∃ boot boot', ReadFrom uki gpt boot ∧ ReadFrom uki' gpt' boot' ∧
      UpTo sha256 zeroPcr (bootInputs sha256 boot ++ bootInputs sha256 boot') (boot = boot') := by
  obtain ⟨-, boot, hread, hvalues⟩ := computeAll_eq_ok.mp h
  obtain ⟨-, boot', hread', hvalues'⟩ := computeAll_eq_ok.mp h'
  refine ⟨boot, boot', hread, hread', ?_⟩
  refine (UpTo.forall_mem fun pcr hpcr => ?_).imp MeasuredBoot.eq_of_payloads
  have hends := (hvalues pcr hpcr).symm.trans ((hsame pcr hpcr).trans (hvalues' pcr hpcr))
  refine (commit_binding hlen (List.length_replicate ..) (hex_injective hends)).mono ?_
  intro x hx
  rw [List.mem_append] at hx ⊢
  exact hx.imp (fun hx => List.mem_flatMap.mpr ⟨pcr, hpcr, hx⟩)
    fun hx => List.mem_flatMap.mpr ⟨pcr, hpcr, hx⟩

/-- A UKI, unsigned and signed. -/
theorem computeAll_binding_sample :
    ∃ boot boot', ReadFrom unsignedUki [0xD1] boot ∧
      ReadFrom (sampleSignature.on unsignedUki unsignedHeaders 232) [0xD1] boot' ∧
      UpTo (sampleHash 32) zeroPcr (bootInputs (sampleHash 32) boot ++ bootInputs (sampleHash 32) boot')
        (boot = boot') := by
  obtain ⟨pcrs, hpcrs⟩ : ∃ pcrs, computeAll (sampleHash 32) (fun _ => sampleHash 48) unsignedUki [0xD1] none
      none = .ok pcrs := exists_of_isOk (by decide +kernel)
  have hsigned := hpcrs
  rw [← (signable_unsignedUki.sameImage sampleSignature).azure_eq] at hsigned
  exact computeAll_binding (length_sampleHash 32) hpcrs hsigned fun _ _ => rfl

end

end CvmMeasure.AzureSnp
