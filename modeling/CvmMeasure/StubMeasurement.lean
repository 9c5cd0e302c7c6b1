import CvmMeasure.AzureSnp.Registers
import CvmMeasure.Pe.Coverage
import CvmMeasure.Tdx.Registers

/-! # Only PCR 4 and RTMR[1] see the stub

The code of a UKI's stub lies in sections systemd does not measure. The registers over measured
sections cannot see it; the Authenticode digest, which PCR 4 and RTMR[1] hold, sees all of it.

* **`stub_only_in_authenticode`**: images that agree on headers and measured sections have the same
  PCR 9, PCR 11 and RTMR[2]; and if their sections tile the file, different images are hashed over
  different Authenticode streams. -/

namespace CvmMeasure

open Binary Python Pe

variable {A B : Bytes} {header : PeHeader} {h : Nat}

/-- PCR 9 reads the command line, the initrd and the microcode only. -/
theorem computePcr9_eq (hs : SameHeaders A B header h) (hranges : SameMeasuredRanges A B header)
    (sha256 : Bytes → Bytes) : AzureSnp.computePcr9 sha256 A = AzureSnp.computePcr9 sha256 B := by
  rw [AzureSnp.computePcr9, AzureSnp.computePcr9, hs.ukiCmdline_eq hranges,
    hs.peExtractSection_eq hranges (by decide), hs.peExtractSection_eq hranges (by decide)]

/-- PCR 11 reads the measured sections only. -/
theorem computePcr11_eq (hs : SameHeaders A B header h) (hranges : SameMeasuredRanges A B header)
    (sha256 : Bytes → Bytes) : AzureSnp.computePcr11 sha256 A = AzureSnp.computePcr11 sha256 B := by
  rw [AzureSnp.computePcr11, AzureSnp.computePcr11, hs.measuredSections_eq hranges]

/-- RTMR[2] reads the measured sections only. -/
theorem computeRtmr2_eq (hs : SameHeaders A B header h) (hranges : SameMeasuredRanges A B header)
    (sha384 : Bytes → Bytes) : Tdx.computeRtmr2 sha384 A = Tdx.computeRtmr2 sha384 B := by
  rw [Tdx.computeRtmr2, Tdx.computeRtmr2, hs.measuredSections_eq hranges]

/-- **Only PCR 4 and RTMR[1] see the stub.** Two images of one length that agree on their headers and
on the raw data of every measured section have the same measured sections, or the same refusal, so the
same PCR 9, PCR 11 and RTMR[2]. If in addition the non-empty raw sections tile the file from
SizeOfHeaders to its end and both images are accepted, the Authenticode digest hashes different
streams for them as soon as they differ. -/
theorem stub_only_in_authenticode (hs : SameHeaders A B header h)
    (hranges : SameMeasuredRanges A B header) :
    (∀ register, measuredSections A register = measuredSections B register) ∧
    (∀ sha256, AzureSnp.computePcr9 sha256 A = AzureSnp.computePcr9 sha256 B) ∧
    (∀ sha256, AzureSnp.computePcr11 sha256 A = AzureSnp.computePcr11 sha256 B) ∧
    (∀ sha384, Tdx.computeRtmr2 sha384 A = Tdx.computeRtmr2 sha384 B) ∧
    (∀ headers, readAuthenticodeHeaders A = .ok headers →
      Tiles headers.sections headers.sizeOfHeaders A.length →
      ∀ streamA streamB, authenticodeStream A = .ok streamA → authenticodeStream B = .ok streamB →
        A ≠ B → streamA ≠ streamB) :=
  ⟨hs.measuredSections_eq hranges, computePcr9_eq hs hranges, computePcr11_eq hs hranges,
    computeRtmr2_eq hs hranges,
    fun _ hread htiles _ _ hA hB hne => hs.authenticodeStream_ne hread htiles hA hB hne⟩

/-- The two small UKIs have one header. -/
theorem sampleUki_sameHeaders :
    SameHeaders (sampleUki [0x01, 0x02, 0x03, 0x04]) (sampleUki [0x05, 0x06, 0x07, 0x08])
      ⟨68, 2, 200⟩ 280 where
  length_eq := by decide +kernel
  take_eq := by decide +kernel
  parsed := by decide +kernel
  dos_le := by decide
  table_le := by decide
  headers_le := by
    intro size hsize
    have hread : readU32 (sampleUki [0x01, 0x02, 0x03, 0x04]) (68 + 20 + 60) "SizeOfHeaders"
        = .ok 280 := by decide +kernel
    exact (ok_unique hsize hread).le

/-- Swapping the stub of the small UKI changes the stream and nothing else. -/
theorem stub_only_in_authenticode_sample :
    measuredSections (sampleUki [0x01, 0x02, 0x03, 0x04]) "PCR 11"
        = measuredSections (sampleUki [0x05, 0x06, 0x07, 0x08]) "PCR 11" ∧
      ∀ streamA streamB, authenticodeStream (sampleUki [0x01, 0x02, 0x03, 0x04]) = .ok streamA →
        authenticodeStream (sampleUki [0x05, 0x06, 0x07, 0x08]) = .ok streamB →
          streamA ≠ streamB := by
  have hranges : SameMeasuredRanges (sampleUki [0x01, 0x02, 0x03, 0x04])
      (sampleUki [0x05, 0x06, 0x07, 0x08]) ⟨68, 2, 200⟩ := by
    unfold SameMeasuredRanges
    decide +kernel
  have h := stub_only_in_authenticode sampleUki_sameHeaders hranges
  refine ⟨h.1 "PCR 11", fun streamA streamB hA hB => ?_⟩
  refine h.2.2.2.2 ⟨⟨152, 196, 200⟩, 280, none, 0, [(280, 4), (284, 4)]⟩ (by decide +kernel) ?_ _ _ hA
    hB (by decide +kernel)
  have hlen : (sampleUki [0x01, 0x02, 0x03, 0x04]).length = 288 := by decide +kernel
  exact ⟨[(280, 4), (284, 4)], List.Perm.refl _, rfl, rfl, hlen.symm⟩

end CvmMeasure
