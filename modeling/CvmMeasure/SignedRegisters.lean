import CvmMeasure.AzureSnp.ComputeAll
import CvmMeasure.Pe.SignedContent
import CvmMeasure.Tdx.Registers

/-! # Registers of a signed UKI

A UKI is published unsigned and booted signed, or the other way round. The registers are those of either: they
are computed from what the tool reads out of the image, and a signature changes none of that.

* **`SameImage.azure_eq`**, **`SameImage.tdx_eq`**: images that read alike have the same registers, or the same
  refusal;
* **`signing_preserves_registers`**: so a signature changes no register of either platform. -/

namespace CvmMeasure

open Binary Python Pe

section

variable {A B : Bytes}

namespace Pe.SameImage

/-- The same image has the same Authenticode digest, -/
theorem digest_eq (h : SameImage A B) (hash : Bytes → Bytes) :
    peAuthenticodeDigest hash A = peAuthenticodeDigest hash B := by
  rw [peAuthenticodeDigest, peAuthenticodeDigest, h.stream_eq]

/-- the same measured sections, -/
theorem measuredSections_eq (h : SameImage A B) (register : String) :
    measuredSections A register = measuredSections B register := by
  have hcontent : measuredLoop A ukiMeasuredSections = measuredLoop B ukiMeasuredSections :=
    measuredLoop_congr fun name _ => h.extract_eq name true
  rw [measuredSections, measuredSections, rejectUnmodelledUki, rejectUnmodelledUki, h.names_eq, hcontent]

/-- the same command line, -/
theorem ukiCmdline_eq (h : SameImage A B) : ukiCmdline A = ukiCmdline B := by
  rw [ukiCmdline, ukiCmdline, h.extract_eq]

/-- **The vTPM registers depend on the image by what is read out of it.** -/
theorem azure_eq (h : SameImage A B) (sha256 : Bytes → Bytes) (hashNew : String → Bytes → Bytes) (gpt : Bytes)
    (initdata : Option Bytes) (pcr8Hex : Option String) :
    AzureSnp.computeAll sha256 hashNew A gpt initdata pcr8Hex
      = AzureSnp.computeAll sha256 hashNew B gpt initdata pcr8Hex := by
  have hpcr4 : AzureSnp.computePcr4 sha256 A = AzureSnp.computePcr4 sha256 B := by
    rw [AzureSnp.computePcr4, AzureSnp.computePcr4, h.extract_eq, h.digest_eq]
  have hpcr9 : AzureSnp.computePcr9 sha256 A = AzureSnp.computePcr9 sha256 B := by
    rw [AzureSnp.computePcr9, AzureSnp.computePcr9, h.ukiCmdline_eq, h.extract_eq, h.extract_eq]
  have hpcr11 : AzureSnp.computePcr11 sha256 A = AzureSnp.computePcr11 sha256 B := by
    rw [AzureSnp.computePcr11, AzureSnp.computePcr11, h.measuredSections_eq]
  rw [AzureSnp.computeAll, AzureSnp.computeAll, hpcr4, hpcr9, hpcr11]

/-- and the same root hash. -/
theorem roothash_eq (h : SameImage A B) : AzureSnp.roothash A = AzureSnp.roothash B := by
  rw [AzureSnp.roothash, AzureSnp.roothash, h.ukiCmdline_eq]

/-- **So do the registers of a TD.** -/
theorem tdx_eq (h : SameImage A B) (sha384 : Bytes → Bytes) (firmware : Bytes) (baseline : Tdx.Baseline)
    (ramGib numaNodes : Int) (maxPerNodeGib : Option Int) (rtmr3Hex gptDigestHex : Option String) :
    Tdx.computeAll sha384 firmware A baseline ramGib numaNodes maxPerNodeGib rtmr3Hex gptDigestHex
      = Tdx.computeAll sha384 firmware B baseline ramGib numaNodes maxPerNodeGib rtmr3Hex gptDigestHex := by
  have hrtmr1 : Tdx.computeRtmr1 sha384 A baseline gptDigestHex = Tdx.computeRtmr1 sha384 B baseline gptDigestHex := by
    rw [Tdx.computeRtmr1, Tdx.computeRtmr1, h.extract_eq, h.digest_eq]
  have hrtmr2 : Tdx.computeRtmr2 sha384 A = Tdx.computeRtmr2 sha384 B := by
    rw [Tdx.computeRtmr2, Tdx.computeRtmr2, h.measuredSections_eq]
  rw [Tdx.computeAll, Tdx.computeAll, hrtmr1, hrtmr2]

end Pe.SameImage

end

/-- **Signing a UKI changes no register.** Whatever CheckSum, certificate address and certificate table a
signer writes, `compute_all` of either platform and the root hash are those of the unsigned image: the same
registers, or the same exception. -/
theorem signing_preserves_registers {uki : Bytes} {headers : AuthenticodeHeaders} {entryOff : Nat}
    (h : Signable uki headers entryOff) (s : Signature) :
    (∀ sha256 hashNew gpt initdata pcr8Hex,
      AzureSnp.computeAll sha256 hashNew (s.on uki headers entryOff) gpt initdata pcr8Hex
        = AzureSnp.computeAll sha256 hashNew uki gpt initdata pcr8Hex) ∧
    AzureSnp.roothash (s.on uki headers entryOff) = AzureSnp.roothash uki ∧
    ∀ sha384 firmware baseline ramGib numaNodes maxPerNodeGib rtmr3Hex gptDigestHex,
      Tdx.computeAll sha384 firmware (s.on uki headers entryOff) baseline ramGib numaNodes maxPerNodeGib
          rtmr3Hex gptDigestHex
        = Tdx.computeAll sha384 firmware uki baseline ramGib numaNodes maxPerNodeGib rtmr3Hex gptDigestHex :=
  have hsame := h.sameImage s
  ⟨hsame.azure_eq, hsame.roothash_eq, hsame.tdx_eq⟩

/-! ## A UKI and its signature -/

/-- A PE32+ image of the given sections, of a page at most each, with five empty data directories. -/
def unsignedImage (sections : List (String × Bytes)) : Bytes :=
  let headers := 240 + 40 * sections.length
  asciiBytes "MZ" ++ List.replicate 58 0x00 ++ leBytes 4 64
    ++ peSignature ++ leBytes 2 0x8664 ++ leBytes 2 sections.length ++ List.replicate 12 0x00
    ++ leBytes 2 152 ++ leBytes 2 0
    ++ leBytes 2 0x20B ++ List.replicate 54 0x00 ++ leBytes 4 (0x1000 * (sections.length + 1))
    ++ leBytes 4 headers ++ leBytes 4 0 ++ List.replicate 40 0x00 ++ leBytes 4 5
    ++ List.replicate 40 0x00 ++ sampleTable 0x1000 headers sections ++ sections.flatMap Prod.snd

/-- A UKI with a kernel, a command line and an initrd. -/
def unsignedUki : Bytes :=
  unsignedImage [(".linux", sampleUki [0x01, 0x02, 0x03, 0x04]),
    (".cmdline", asciiBytes "roothash=ab12 quiet"), (".initrd", [0xC1, 0xC2])]

/-- Its headers: CheckSum at 152, certificate entry at 232, three sections behind 360 bytes of headers. -/
def unsignedHeaders : AuthenticodeHeaders where
  layout := ⟨152, 196, 200⟩
  sizeOfHeaders := 360
  certEntryOff := some 232
  certTableSize := 0
  sections := [(360, 288), (648, 19), (667, 2)]

/-- There is room for a signature behind it. -/
theorem signable_unsignedUki : Signable unsignedUki unsignedHeaders 232 where
  read := by decide +kernel
  entry := rfl
  covered := by decide
  unsigned := rfl
  behind := by decide
  room := by
    have hlen : unsignedUki.length = 669 := by decide +kernel
    rw [hlen]
    decide

/-- A small certificate table behind that UKI. -/
def sampleSignature : Signature where
  checksum := [0x11, 0x22, 0x33, 0x44]
  address := leBytes 4 669
  certificate := [0xD1, 0xD2]
  checksum_length := rfl
  address_length := rfl
  certificate_lt := by decide

/-- The registers of the UKI are computed, and they are those of the signed one. -/
theorem signing_preserves_registers_sample : ∃ pcrs,
    AzureSnp.computeAll (Hash.sampleHash 32) (fun _ => Hash.sampleHash 48) unsignedUki [0xD1] none none
      = .ok pcrs ∧
    AzureSnp.computeAll (Hash.sampleHash 32) (fun _ => Hash.sampleHash 48)
      (sampleSignature.on unsignedUki unsignedHeaders 232) [0xD1] none none = .ok pcrs := by
  obtain ⟨pcrs, hpcrs⟩ : ∃ pcrs, AzureSnp.computeAll (Hash.sampleHash 32) (fun _ => Hash.sampleHash 48)
      unsignedUki [0xD1] none none = .ok pcrs :=
    exists_of_isOk (by decide +kernel)
  refine ⟨pcrs, hpcrs, ?_⟩
  rw [(signing_preserves_registers signable_unsignedUki sampleSignature).1]
  exact hpcrs

end CvmMeasure
