import CvmMeasure.AzureSnp.MeasuredBoot

/-! # What the section registers say about the rest

PCR 11 and RTMR[2] hash every section systemd-stub recognises, so they already fix what the tool reads out
of single sections: the command line and the root hash on it, the initrd and the microcode of PCR 9, and the
kernel of PCR 4 and RTMR[1].

* **`SameSections`**: every read of a measured section has the same outcome on two images;
* **`measuredSections_lookup`**: the measured sections are all there is to read under such a name;
* **`section_registers_determine`**: equal PCR 11 or equal RTMR[2] mean the same sections in this sense, and
  with them equal PCR 9 and root hash;
* **`pcr9_determines_roothash`**: and PCR 9 alone fixes the command line, where the root hash stands. -/

namespace CvmMeasure

open Binary Python Pe Hash

variable {uki uki' : Bytes} {register : String} {sections sections' : List (String × Bytes)}

/-- What the loop over the names has collected under each of them. -/
theorem measuredLoop_lookup {names : List String} (hnames : names.Nodup)
    (h : measuredLoop uki names = .ok sections) :
    ∀ name ∈ names, peExtractSection uki name true = .ok (sections.lookup name) := by
  induction names generalizing sections with
  | nil => exact fun _ hname => absurd hname List.not_mem_nil
  | cons first names ih =>
    obtain ⟨hfirst, hnames⟩ := List.nodup_cons.mp hnames
    simp only [measuredLoop, bind_eq_ok, pure_eq_ok] at h
    obtain ⟨content, hcontent, rest, hrest, rfl⟩ := h
    have hothers := ih hnames hrest
    intro name hname
    by_cases heq : name = first
    · subst heq
      rw [hcontent]
      cases content with
      | none =>
        -- the name does not come up again
        have hnone : rest.lookup name = none := by
          rw [List.lookup_eq_none_iff]
          intro s hs
          have hmem := (measuredLoop_spec hrest).1.subset (List.mem_map_of_mem hs)
          simpa using fun heq : name = s.1 => hfirst (heq ▸ hmem)
        simp [hnone]
      | some bs => simp
    · rw [hothers name (List.mem_of_ne_of_mem heq hname)]
      cases content with
      | none => rfl
      | some bs =>
        have hne : (name == first) = false := beq_eq_false_iff_ne.mpr heq
        simp [List.lookup_cons, hne]

/-- **The measured sections are all there is to read under a measured name.** -/
theorem measuredSections_lookup (h : measuredSections uki register = .ok sections) :
    ∀ name ∈ ukiMeasuredSections, peExtractSection uki name true = .ok (sections.lookup name) := by
  simp only [measuredSections, bind_eq_ok] at h
  obtain ⟨_, -, h⟩ := h
  exact measuredLoop_lookup (by decide) h

/-- Every read of a measured section has the same outcome on both images. -/
def SameSections (uki uki' : Bytes) : Prop :=
  ∀ name ∈ ukiMeasuredSections, peExtractSection uki name true = peExtractSection uki' name true

/-- Equal lists of measured sections leave nothing else to read. -/
theorem sameSections_of_eq (h : measuredSections uki register = .ok sections)
    (h' : measuredSections uki' register = .ok sections') (heq : sections = sections') :
    SameSections uki uki' := by
  intro name hname
  rw [measuredSections_lookup h name hname, measuredSections_lookup h' name hname, heq]

namespace SameSections

/-- Images with the same sections have the same command line. -/
theorem ukiCmdline_eq (hsame : SameSections uki uki') : ukiCmdline uki = ukiCmdline uki' := by
  rw [ukiCmdline, ukiCmdline, hsame ".cmdline" (by decide)]

/-- They have the same PCR 9. -/
theorem computePcr9_eq (hsame : SameSections uki uki') (sha256 : Bytes → Bytes) :
    AzureSnp.computePcr9 sha256 uki = AzureSnp.computePcr9 sha256 uki' := by
  rw [AzureSnp.computePcr9, AzureSnp.computePcr9, hsame.ukiCmdline_eq, hsame ".initrd" (by decide),
    hsame ".ucode" (by decide)]

/-- They have the same root hash. -/
theorem roothash_eq (hsame : SameSections uki uki') :
    AzureSnp.roothash uki = AzureSnp.roothash uki' := by
  rw [AzureSnp.roothash, AzureSnp.roothash, hsame.ukiCmdline_eq]

end SameSections

/-- What the section registers determine: every read of a measured section, and with it PCR 9 and the root
hash. -/
structure SameReads (uki uki' : Bytes) : Prop where
  sections : SameSections uki uki'
  pcr9 : ∀ sha256, AzureSnp.computePcr9 sha256 uki = AzureSnp.computePcr9 sha256 uki'
  roothash : AzureSnp.roothash uki = AzureSnp.roothash uki'

/-- The sections of two images whose registers end in one value. -/
theorem sameReads_of_commit {hash : Bytes → Bytes} {w : Nat} (hlen : ∀ x, (hash x).length = w)
    {init : Bytes} (hinit : init.length = w) (h : measuredSections uki register = .ok sections)
    (h' : measuredSections uki' register = .ok sections')
    (hends : commit hash init (sectionHashInputs sections)
      = commit hash init (sectionHashInputs sections')) :
    UpTo hash init (commitInputs hash init (sectionHashInputs sections)
      ++ commitInputs hash init (sectionHashInputs sections')) (SameReads uki uki') := by
  refine (commit_binding hlen hinit hends).imp fun hinputs => ?_
  have heq := sectionHashInputs_injective (measuredSections_names h) (measuredSections_names h') hinputs
  have hsame := sameSections_of_eq h h' heq
  exact ⟨hsame, hsame.computePcr9_eq, hsame.roothash_eq⟩

/-- **The section registers determine every measured section.** Two UKIs with one PCR 11, or with one RTMR[2],
give the same outcome to every read of a section that is measured, and so have the same PCR 9 or the same
refusal of it, and the same root hash, up to a failure of the hash on the inputs evaluated. -/
theorem section_registers_determine {sha256 sha384 : Bytes → Bytes}
    (h256 : ∀ x, (sha256 x).length = AzureSnp.sha256Size)
    (h384 : ∀ x, (sha384 x).length = Tdx.sha384Size) (uki uki' : Bytes) (value : String) :
    (AzureSnp.computePcr11 sha256 uki = .ok value → AzureSnp.computePcr11 sha256 uki' = .ok value →
      ∃ s s', measuredSections uki "PCR 11" = .ok s ∧ measuredSections uki' "PCR 11" = .ok s' ∧
        UpTo sha256 AzureSnp.zeroPcr (commitInputs sha256 AzureSnp.zeroPcr (sectionHashInputs s)
          ++ commitInputs sha256 AzureSnp.zeroPcr (sectionHashInputs s')) (SameReads uki uki')) ∧
    (Tdx.computeRtmr2 sha384 uki = .ok value → Tdx.computeRtmr2 sha384 uki' = .ok value →
      ∃ s s', measuredSections uki "RTMR[2]" = .ok s ∧ measuredSections uki' "RTMR[2]" = .ok s' ∧
        UpTo sha384 Tdx.zeroRtmr (commitInputs sha384 Tdx.zeroRtmr (sectionHashInputs s)
          ++ commitInputs sha384 Tdx.zeroRtmr (sectionHashInputs s')) (SameReads uki uki')) := by
  constructor
  · intro h h'
    obtain ⟨s, hs, hvalue⟩ := AzureSnp.computePcr11_eq_ok.mp h
    obtain ⟨s', hs', hvalue'⟩ := AzureSnp.computePcr11_eq_ok.mp h'
    exact ⟨s, s', hs, hs', sameReads_of_commit h256 (List.length_replicate ..) hs hs'
      (hex_injective (hvalue.symm.trans hvalue'))⟩
  · intro h h'
    simp only [Tdx.computeRtmr2, bind_eq_ok, pure_eq_ok] at h h'
    obtain ⟨s, hs, hvalue⟩ := h
    obtain ⟨s', hs', hvalue'⟩ := h'
    exact ⟨s, s', hs, hs', sameReads_of_commit h384 (List.length_replicate ..) hs hs'
      (hex_injective (hvalue.trans hvalue'.symm))⟩

/-- A UKI, unsigned and signed. -/
theorem section_registers_determine_sample :
    ∃ s s', measuredSections unsignedUki "PCR 11" = .ok s ∧
      measuredSections (sampleSignature.on unsignedUki unsignedHeaders 232) "PCR 11" = .ok s' ∧
        UpTo (sampleHash 32) AzureSnp.zeroPcr
          (commitInputs (sampleHash 32) AzureSnp.zeroPcr (sectionHashInputs s)
            ++ commitInputs (sampleHash 32) AzureSnp.zeroPcr (sectionHashInputs s'))
          (SameReads unsignedUki (sampleSignature.on unsignedUki unsignedHeaders 232)) := by
  obtain ⟨value, hvalue⟩ : ∃ value, AzureSnp.computePcr11 (sampleHash 32) unsignedUki = .ok value :=
    exists_of_isOk (by decide +kernel)
  have hsigned := hvalue
  rw [AzureSnp.computePcr11, ← (signable_unsignedUki.sameImage sampleSignature).measuredSections_eq] at hsigned
  exact (section_registers_determine (length_sampleHash 32) (length_sampleHash 48) _ _ value).1
    hvalue hsigned

/-- **PCR 9 determines the root hash.** Two UKIs with one PCR 9 have the same command line, so the same
root hash, and hand the kernel the same blob of microcode and initrd, up to a failure of the hash on the
inputs evaluated. -/
theorem pcr9_determines_roothash {sha256 : Bytes → Bytes}
    (hlen : ∀ x, (sha256 x).length = AzureSnp.sha256Size) {value : String}
    (h : AzureSnp.computePcr9 sha256 uki = .ok value)
    (h' : AzureSnp.computePcr9 sha256 uki' = .ok value) :
    ∃ cmdline cmdline' blob blob', ukiCmdline uki = .ok cmdline ∧ ukiCmdline uki' = .ok cmdline' ∧
      AzureSnp.InitrdBlob uki blob ∧ AzureSnp.InitrdBlob uki' blob' ∧
      UpTo sha256 AzureSnp.zeroPcr
        (commitInputs sha256 AzureSnp.zeroPcr [utf16LeEncode cmdline ++ [0x00, 0x00], blob]
          ++ commitInputs sha256 AzureSnp.zeroPcr [utf16LeEncode cmdline' ++ [0x00, 0x00], blob'])
        (cmdline = cmdline' ∧ AzureSnp.roothash uki = AzureSnp.roothash uki' ∧ blob = blob') := by
  obtain ⟨cmdline, blob, hcmdline, hblob, hvalue⟩ := AzureSnp.computePcr9_eq_ok.mp h
  obtain ⟨cmdline', blob', hcmdline', hblob', hvalue'⟩ := AzureSnp.computePcr9_eq_ok.mp h'
  have hends := hex_injective (hvalue.symm.trans hvalue')
  refine ⟨cmdline, cmdline', blob, blob', hcmdline, hcmdline', hblob, hblob',
    (commit_binding hlen (List.length_replicate ..) hends).imp fun hpayloads => ?_⟩
  simp only [List.cons.injEq, and_true] at hpayloads
  have heq : cmdline = cmdline' := by
    rw [← utf16LeDecode_utf16LeEncode cmdline, List.append_cancel_right hpayloads.1,
      utf16LeDecode_utf16LeEncode]
  refine ⟨heq, ?_, hpayloads.2⟩
  rw [AzureSnp.roothash, AzureSnp.roothash, hcmdline, hcmdline', heq]

/-- A UKI, unsigned and signed. -/
theorem pcr9_determines_roothash_sample :
    ∃ cmdline cmdline' blob blob', ukiCmdline unsignedUki = .ok cmdline ∧
      ukiCmdline (sampleSignature.on unsignedUki unsignedHeaders 232) = .ok cmdline' ∧
      AzureSnp.InitrdBlob unsignedUki blob ∧
      AzureSnp.InitrdBlob (sampleSignature.on unsignedUki unsignedHeaders 232) blob' ∧
      UpTo (sampleHash 32) AzureSnp.zeroPcr
        (commitInputs (sampleHash 32) AzureSnp.zeroPcr [utf16LeEncode cmdline ++ [0x00, 0x00], blob]
          ++ commitInputs (sampleHash 32) AzureSnp.zeroPcr
            [utf16LeEncode cmdline' ++ [0x00, 0x00], blob'])
        (cmdline = cmdline' ∧ AzureSnp.roothash unsignedUki
          = AzureSnp.roothash (sampleSignature.on unsignedUki unsignedHeaders 232) ∧ blob = blob') := by
  obtain ⟨value, hvalue⟩ : ∃ value, AzureSnp.computePcr9 (sampleHash 32) unsignedUki = .ok value :=
    exists_of_isOk (by decide +kernel)
  have hsame := signable_unsignedUki.sameImage sampleSignature
  have hsigned := hvalue
  rw [AzureSnp.computePcr9, ← hsame.ukiCmdline_eq, ← hsame.extract_eq, ← hsame.extract_eq] at hsigned
  exact pcr9_determines_roothash (length_sampleHash 32) hvalue hsigned

end CvmMeasure
