import CvmMeasure.AzureSnp.Registers
import CvmMeasure.Pe.SectionOrder
import CvmMeasure.Tdx.Registers

/-! # PCR 11 and RTMR[2] bind the measured sections

Both registers are chains over the digests of section names and contents, at their own hash. Equal
registers mean equal sections, unless the hash inputs evaluated on the way exhibit a collision or an
extend that returns to all zeros.

* **`evaluatedInputs`**: every input one computation hashes;
* **`sections_binding`**: the argument, for any hash;
* **`registers_bind_sections`**: both registers. -/

namespace CvmMeasure

open Binary Python Pe Hash

/-- The extend inputs of a register computed from sections. -/
def extendInputs (hash : Bytes → Bytes) (init : Bytes) (sections : List (String × Bytes)) :
    List Bytes :=
  replayInputs hash init (sectionDigests hash sections)

/-- All hash inputs of a register computed from sections: names, contents and extends. -/
def evaluatedInputs (hash : Bytes → Bytes) (init : Bytes) (sections : List (String × Bytes)) :
    List Bytes :=
  sectionHashInputs sections ++ extendInputs hash init sections

/-- The section names of the canonical order differ as measured. -/
theorem measuredName_injective {a b : String} (ha : a ∈ ukiMeasuredSections)
    (hb : b ∈ ukiMeasuredSections) (h : asciiBytes (a ++ "\x00") = asciiBytes (b ++ "\x00")) :
    a = b := by
  have hall : ∀ a ∈ ukiMeasuredSections, ∀ b ∈ ukiMeasuredSections,
      asciiBytes (a ++ "\x00") = asciiBytes (b ++ "\x00") → a = b := by decide +kernel
  exact hall a ha b hb h

/-- The hashed names and contents determine the sections. -/
theorem sectionHashInputs_injective {s s' : List (String × Bytes)}
    (hs : ∀ p ∈ s, p.1 ∈ ukiMeasuredSections) (hs' : ∀ p ∈ s', p.1 ∈ ukiMeasuredSections)
    (h : sectionHashInputs s = sectionHashInputs s') : s = s' := by
  induction s generalizing s' with
  | nil =>
    cases s' with
    | nil => rfl
    | cons p' s' => cases h
  | cons p s ih =>
    cases s' with
    | nil => cases h
    | cons p' s' =>
      simp only [sectionHashInputs, List.flatMap_cons, List.cons_append, List.nil_append,
        List.cons.injEq] at h
      obtain ⟨hname, hcontent, hrest⟩ := h
      have hhead : p = p' := Prod.ext
        (measuredName_injective (hs p List.mem_cons_self) (hs' p' List.mem_cons_self) hname) hcontent
      rw [hhead, ih (fun x hx => hs x (List.mem_cons_of_mem p hx))
        (fun x hx => hs' x (List.mem_cons_of_mem p' hx)) hrest]

/-- The measured sections carry canonical names. -/
theorem measuredSections_names {uki : Bytes} {register : String} {s : List (String × Bytes)}
    (h : measuredSections uki register = .ok s) : ∀ p ∈ s, p.1 ∈ ukiMeasuredSections := by
  simp only [measuredSections, bind_eq_ok] at h
  obtain ⟨_, -, h⟩ := h
  exact fun p hp => (measuredLoop_spec h).1.subset (List.mem_map_of_mem hp)

/-- **A register over sections binds them**, for any hash of the register's width. -/
theorem sections_binding {hash : Bytes → Bytes} {w : Nat} (hlen : ∀ x, (hash x).length = w)
    {init : Bytes} (hinit : init.length = w) {s s' : List (String × Bytes)}
    (hs : ∀ p ∈ s, p.1 ∈ ukiMeasuredSections) (hs' : ∀ p ∈ s', p.1 ∈ ukiMeasuredSections)
    (h : replay hash init (sectionDigests hash s) = replay hash init (sectionDigests hash s')) :
    s = s' ∨ Collision hash (evaluatedInputs hash init s ++ evaluatedInputs hash init s') ∨
      ∃ x ∈ extendInputs hash init s ++ extendInputs hash init s', hash x = init := by
  have hextends : extendInputs hash init s ++ extendInputs hash init s'
      ⊆ evaluatedInputs hash init s ++ evaluatedInputs hash init s' := by
    intro x hx
    simp only [evaluatedInputs, List.mem_append] at hx ⊢
    tauto
  have hinputs : sectionHashInputs s ++ sectionHashInputs s'
      ⊆ evaluatedInputs hash init s ++ evaluatedInputs hash init s' := by
    intro x hx
    simp only [evaluatedInputs, List.mem_append] at hx ⊢
    tauto
  -- the chains bind the digests, the digests bind the hashed names and contents
  rcases replay_binding hlen hinit _ _ h with hdigests | hcol | hzero
  · -- equal digests: go through the name and content hashes
    rcases eq_or_collision_of_map_eq hdigests with heq | hcol
    · exact Or.inl (sectionHashInputs_injective hs hs' heq)
    · exact Or.inr (Or.inl (hcol.mono hinputs))
  · exact Or.inr (Or.inl (hcol.mono hextends))
  · exact Or.inr (Or.inr hzero)

/-- **PCR 11 and RTMR[2] bind the measured sections.** If two UKIs have the same PCR 11, they measure
the same ordered list of names and contents, or the hash inputs evaluated in the two computations
contain a collision, or one of the extends returned to the initial value; and so for RTMR[2]. -/
theorem registers_bind_sections {sha256 sha384 : Bytes → Bytes}
    (h256 : ∀ x, (sha256 x).length = AzureSnp.sha256Size)
    (h384 : ∀ x, (sha384 x).length = Tdx.sha384Size) (uki uki' : Bytes) (value : String) :
    (AzureSnp.computePcr11 sha256 uki = .ok value → AzureSnp.computePcr11 sha256 uki' = .ok value →
      ∃ s s', measuredSections uki "PCR 11" = .ok s ∧ measuredSections uki' "PCR 11" = .ok s' ∧
        (s = s' ∨
          Collision sha256 (evaluatedInputs sha256 AzureSnp.zeroPcr s
            ++ evaluatedInputs sha256 AzureSnp.zeroPcr s') ∨
          ∃ x ∈ extendInputs sha256 AzureSnp.zeroPcr s ++ extendInputs sha256 AzureSnp.zeroPcr s',
            sha256 x = AzureSnp.zeroPcr)) ∧
    (Tdx.computeRtmr2 sha384 uki = .ok value → Tdx.computeRtmr2 sha384 uki' = .ok value →
      ∃ s s', measuredSections uki "RTMR[2]" = .ok s ∧ measuredSections uki' "RTMR[2]" = .ok s' ∧
        (s = s' ∨
          Collision sha384 (evaluatedInputs sha384 Tdx.zeroRtmr s
            ++ evaluatedInputs sha384 Tdx.zeroRtmr s') ∨
          ∃ x ∈ extendInputs sha384 Tdx.zeroRtmr s ++ extendInputs sha384 Tdx.zeroRtmr s',
            sha384 x = Tdx.zeroRtmr)) := by
  constructor
  · intro h h'
    simp only [AzureSnp.computePcr11, bind_eq_ok, pure_eq_ok] at h h'
    obtain ⟨s, hs, h⟩ := h
    obtain ⟨s', hs', h'⟩ := h'
    exact ⟨s, s', hs, hs', sections_binding h256 (List.length_replicate ..)
      (measuredSections_names hs) (measuredSections_names hs') (hex_injective (h.trans h'.symm))⟩
  · intro h h'
    simp only [Tdx.computeRtmr2, bind_eq_ok, pure_eq_ok] at h h'
    obtain ⟨s, hs, h⟩ := h
    obtain ⟨s', hs', h'⟩ := h'
    exact ⟨s, s', hs, hs', sections_binding h384 (List.length_replicate ..)
      (measuredSections_names hs) (measuredSections_names hs') (hex_injective (h.trans h'.symm))⟩

/-- Two UKIs that differ in their stub only have one PCR 11 and one RTMR[2]. -/
theorem registers_bind_sections_sample :
    ∃ s s', measuredSections (sampleUki [0x01, 0x02, 0x03, 0x04]) "PCR 11" = .ok s ∧
      measuredSections (sampleUki [0x05, 0x06, 0x07, 0x08]) "PCR 11" = .ok s' ∧
        (s = s' ∨
          Collision (sampleHash 32) (evaluatedInputs (sampleHash 32) AzureSnp.zeroPcr s
            ++ evaluatedInputs (sampleHash 32) AzureSnp.zeroPcr s') ∨
          ∃ x ∈ extendInputs (sampleHash 32) AzureSnp.zeroPcr s
            ++ extendInputs (sampleHash 32) AzureSnp.zeroPcr s', sampleHash 32 x = AzureSnp.zeroPcr) :=
  (registers_bind_sections (length_sampleHash 32) (length_sampleHash 48) _ _
    (hex (AzureSnp.replayDigests (sampleHash 32)
      (sectionDigests (sampleHash 32) [(".linux", [0xB1, 0xB2, 0xB3, 0xB4])])))).1
    (by decide +kernel) (by decide +kernel)

end CvmMeasure
