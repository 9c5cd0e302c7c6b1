import CvmMeasure.Pe.Spans

/-! # Signing an image

A signer writes a CheckSum, points the Certificate Table entry at the end of the file and appends the
certificate table there. None of the three is hashed: the header reader sees the two fields nowhere but
in the certificate entry itself, the sections lie behind the headers, and the file tail ends where the
table begins (`signing_preserves_digest`). -/

namespace CvmMeasure.Pe

open Binary Python

/-- The signed image: the CheckSum replaced, the certificate entry set to the address and the length of
the table, and the table appended. -/
def sign (pe : Bytes) (checksumOff entryOff : Nat) (checksum address certificate : Bytes) : Bytes :=
  patch (patch pe checksumOff checksum) entryOff (address ++ leBytes 4 certificate.length)
    ++ certificate

section

variable {pe checksum address certificate : Bytes} {checksumOff entryOff : Nat}

/-- The entry is as long as a data directory. -/
theorem length_entry (haddress : address.length = 4) (n : Nat) :
    (address ++ leBytes 4 n).length = 8 := by
  rw [List.length_append, haddress, leBytes_length]

/-- A signed file is longer by its certificate table. -/
theorem length_sign (hchecksum : checksumOff + checksum.length ≤ pe.length)
    (haddress : address.length = 4) (hentry : entryOff + 8 ≤ pe.length) :
    (sign pe checksumOff entryOff checksum address certificate).length
      = pe.length + certificate.length := by
  rw [sign, List.length_append, length_patch, length_patch hchecksum]
  rwa [length_patch hchecksum, length_entry haddress]

/-- Signing changes the two fields and nothing else of the file. -/
theorem agreeOutside_sign (hlength : checksum.length = 4) (hchecksum : checksumOff + 4 ≤ pe.length)
    (haddress : address.length = 4) (hentry : entryOff + 8 ≤ pe.length) :
    AgreeOutside pe (sign pe checksumOff entryOff checksum address certificate)
      [(checksumOff, checksumOff + 4), (entryOff, entryOff + 8)] := by
  have hcheck : checksumOff + checksum.length ≤ pe.length := by rwa [hlength]
  have hfirst := agreeOutside_patch hcheck
  have hsecond : AgreeOutside (patch pe checksumOff checksum)
      (patch (patch pe checksumOff checksum) entryOff (address ++ leBytes 4 certificate.length))
      [(entryOff, entryOff + (address ++ leBytes 4 certificate.length).length)] := by
    apply agreeOutside_patch
    rwa [length_patch hcheck, length_entry haddress]
  rw [hlength] at hfirst
  rw [length_entry haddress] at hsecond
  exact (hfirst.trans hsecond).trans (agreeOutside_of_isPrefix (List.prefix_append _ certificate))

/-- The certificate table size of the signed image is the length of the table. -/
theorem uintAt_sign (hchecksum : checksumOff + checksum.length ≤ pe.length)
    (haddress : address.length = 4) (hentry : entryOff + 8 ≤ pe.length)
    (hc : certificate.length < 2 ^ 32) :
    uintAt (sign pe checksumOff entryOff checksum address certificate) (entryOff + 4) 4
      = certificate.length := by
  have hroom : entryOff + (address ++ leBytes 4 certificate.length).length
      ≤ (patch pe checksumOff checksum).length := by
    rwa [length_patch hchecksum, length_entry haddress]
  have hat : HasAt (sign pe checksumOff entryOff checksum address certificate) entryOff
      (address ++ leBytes 4 certificate.length) := by
    refine (hasAt_iff_slice_eq.mpr (slice_patch hroom)).trans ?_
    rw [sign, List.drop_append_of_le_length]
    · exact List.prefix_append _ _
    · rw [length_patch hroom]
      exact (Nat.le_add_right _ _).trans hroom
  have hsize := (hasAt_append.mp hat).2
  rw [haddress] at hsize
  have hslice := hasAt_iff_slice_eq.mp hsize
  rw [leBytes_length] at hslice
  rw [uintAt, hslice]
  exact leNat_leBytes hc

end

/-! ## The spans -/

/-- Buffers that agree on every span are hashed alike. -/
theorem coveredBytes_congr {A B : Bytes} {spans : List (Nat × Nat)}
    (h : ∀ s ∈ spans, slice A s.1 s.2 = slice B s.1 s.2) : coveredBytes A spans = coveredBytes B spans :=
  List.flatMap_congr h

/-- No span meets the CheckSum or the certificate entry, if the sections lie behind the headers. -/
theorem authenticodeSpans_clear {pe : Bytes} {headers : AuthenticodeHeaders} {e : Nat}
    {spans : List (Nat × Nat)} (hread : readAuthenticodeHeaders pe = .ok headers)
    (hspans : authenticodeSpans pe = .ok spans) (hentry : headers.certEntryOff = some e)
    (hsections : ∀ s ∈ headers.sections, headers.sizeOfHeaders ≤ s.1) :
    ∀ s ∈ spans, Clear [(headers.layout.checksumOff, headers.layout.checksumOff + 4), (e, e + 8)]
      s.1 s.2 := by
  obtain ⟨headers', hread', hroom, -, rfl⟩ := authenticodeSpans_eq_ok.mp hspans
  obtain rfl := ok_unique hread hread'
  have horder := checksum_le_entry hread e hentry
  rw [hentry, afterCertEntry] at hroom
  intro s hs
  -- what starts behind the headers is clear
  have hbehind : headers.sizeOfHeaders ≤ s.1 →
      Clear [(headers.layout.checksumOff, headers.layout.checksumOff + 4), (e, e + 8)] s.1 s.2 := by
    intro hle
    simp only [Clear, List.forall_mem_cons, List.not_mem_nil, false_implies, implies_true, and_true]
    omega
  rw [List.mem_append, List.mem_append] at hs
  rcases hs with (hs | hs) | hs
  · rw [hentry, headerSpans] at hs
    simp only [Clear, List.forall_mem_cons, List.not_mem_nil, false_implies, implies_true, and_true]
    simp only [List.mem_cons, List.not_mem_nil, or_false] at hs
    rcases hs with rfl | rfl | rfl <;> dsimp only <;> omega
  · obtain ⟨t, ht, rfl⟩ := List.mem_map.mp hs
    exact hbehind (hsections t ht)
  · apply hbehind
    unfold tailSpans at hs
    split at hs
    · rw [List.mem_singleton] at hs
      rw [hs]
      exact Nat.le_add_right _ _
    · cases hs

/-- **Signing does not change the Authenticode digest.** An accepted image has a certificate entry that
declares no certificate table, its non-empty sections lie behind SizeOfHeaders, and the headers and
sections sum up to no more than the file. Then, whatever CheckSum, certificate address and certificate
table the signer writes, the signed image is accepted with the same digest. -/
theorem signing_preserves_digest (hash : Bytes → Bytes) {pe digest : Bytes}
    {headers : AuthenticodeHeaders} {e : Nat} (h : peAuthenticodeDigest hash pe = .ok digest)
    (hread : readAuthenticodeHeaders pe = .ok headers) (hentry : headers.certEntryOff = some e)
    (hunsigned : headers.certTableSize = 0)
    (hsections : ∀ s ∈ headers.sections, headers.sizeOfHeaders ≤ s.1)
    (hroom : headers.sizeOfHeaders + (headers.sections.map Prod.snd).sum ≤ pe.length)
    {checksum address certificate : Bytes} (hchecksum : checksum.length = 4)
    (haddress : address.length = 4) (hc : certificate.length < 2 ^ 32) :
    peAuthenticodeDigest hash (sign pe headers.layout.checksumOff e checksum address certificate)
      = .ok digest := by
  simp only [peAuthenticodeDigest, authenticodeStream, bind_eq_ok, pure_eq_ok] at h ⊢
  obtain ⟨_, ⟨spans, hspans, rfl⟩, rfl⟩ := h
  have hclear := authenticodeSpans_clear hread hspans hentry hsections
  have hbounds := authenticodeSpans_inBounds hspans
  obtain ⟨headers', hread', hhead, -, hspansEq⟩ := authenticodeSpans_eq_ok.mp hspans
  obtain rfl := ok_unique hread hread'
  -- both fields lie in the file
  have horder := checksum_le_entry hread e hentry
  have hfits := sizeOfHeaders_le hread
  rw [hentry, afterCertEntry] at hhead
  have hagree : AgreeOutside pe (sign pe headers.layout.checksumOff e checksum address certificate)
      [(headers.layout.checksumOff, headers.layout.checksumOff + 4), (e, e + 8)] :=
    agreeOutside_sign hchecksum (by omega) haddress (by omega)
  have hholes : HeaderHoles headers
      [(headers.layout.checksumOff, headers.layout.checksumOff + 4), (e, e + 8)] := by
    intro s hs
    simp only [List.mem_cons, List.not_mem_nil, or_false] at hs
    refine ⟨e, hentry, ?_⟩
    rcases hs with rfl | rfl
    · exact Or.inl ⟨le_rfl, le_rfl⟩
    · exact Or.inr ⟨le_rfl, le_rfl⟩
  have hreadSigned := readAuthenticodeHeaders_agree hagree hread hholes
  rw [hentry, Option.elim_some, uintAt_sign (by omega) haddress (by omega) hc] at hreadSigned
  have hlength : (sign pe headers.layout.checksumOff e checksum address certificate).length
      = pe.length + certificate.length :=
    length_sign (by omega) haddress (by omega)
  refine ⟨_, ⟨spans, authenticodeSpans_eq_ok.mpr ⟨_, hreadSigned, ?_, ?_, ?_⟩, rfl⟩, ?_⟩
  · exact hhead
  · -- the table ends with the file, so it begins behind everything hashed
    rintro ⟨-, hoverlap⟩
    rw [hlength] at hoverlap
    dsimp only at hoverlap
    omega
  · have hend : ((sign pe headers.layout.checksumOff e checksum address certificate).length : Int)
        - certificate.length = pe.length - (0 : Nat) := by
      rw [hlength]
      omega
    rw [hspansEq, hunsigned, hentry, hend]
  · rw [coveredBytes_congr fun s hs => (hagree.slice_eq s.1 s.2 (hbounds s hs).2 (hclear s hs)).symm]

/-- The small image without a certificate, and signed. -/
theorem signing_preserves_digest_sample :
    ∃ digest, peAuthenticodeDigest id (sampleImage []) = .ok digest ∧
      peAuthenticodeDigest id (sign (sampleImage []) 152 232 [0x11, 0x22, 0x33, 0x44] (leBytes 4 328)
        [0xC1, 0xC2]) = .ok digest := by
  obtain ⟨digest, hdigest⟩ := exists_of_isOk
    (show (peAuthenticodeDigest id (sampleImage [])).isOk = true by decide +kernel)
  have hread : readAuthenticodeHeaders (sampleImage [])
      = .ok ⟨⟨152, 196, 200⟩, 320, some 232, 0, [(320, 4), (324, 4)]⟩ := by decide +kernel
  have hlen : (sampleImage []).length = 328 := by decide +kernel
  refine ⟨digest, hdigest, signing_preserves_digest id hdigest hread rfl rfl (by decide) ?_ (by decide)
    (by decide) (by decide)⟩
  rw [hlen]
  decide

end CvmMeasure.Pe
