import CvmMeasure.Pe.Locality

/-! # What the Authenticode digest covers

Where the non-empty raw sections tile the file behind the headers, the spans that are hashed reach
every byte behind the headers; so two images with the same headers that differ anywhere are hashed
over different streams.

* **`Tiles`**: ranges that cover an interval without gap or overlap, in any order;
* **`authenticodeStream_ne`**: the stream tells two such images apart. -/

namespace CvmMeasure.Pe

open Binary Python

/-! ## Tilings -/

/-- The ranges (offset and size) follow one another from `a` to `b`. -/
def Consecutive : Nat → List (Nat × Nat) → Nat → Prop
  | a, [], b => a = b
  | a, s :: ss, b => s.1 = a ∧ Consecutive (a + s.2) ss b

/-- **The ranges tile the interval from `a` to `b`**: in some order they follow one another. -/
def Tiles (ranges : List (Nat × Nat)) (a b : Nat) : Prop :=
  ∃ ordered : List (Nat × Nat), ordered.Perm ranges ∧ Consecutive a ordered b

/-- Where the ranges end is not before where they start. -/
theorem Consecutive.le {ranges : List (Nat × Nat)} {a b : Nat} (h : Consecutive a ranges b) :
    a ≤ b := by
  induction ranges generalizing a with
  | nil => exact Nat.le_of_eq h
  | cons s ranges ih =>
    have := ih h.2
    omega

/-- A slice, split at an offset inside it. -/
theorem slice_split (d : Bytes) {a m b : Nat} (ham : a ≤ m) (hmb : m ≤ b) :
    slice d a b = slice d a m ++ slice d m b := by
  have hsplit : b - a = (m - a) + (b - m) := by omega
  rw [slice, slice, slice, hsplit, List.take_add, List.drop_drop, Nat.add_sub_cancel' ham]

/-- Ranges that follow one another cover the interval. -/
theorem Consecutive.flatMap_slice (d : Bytes) {ranges : List (Nat × Nat)} {a b : Nat}
    (h : Consecutive a ranges b) : ranges.flatMap (fun s => slice d s.1 (s.1 + s.2)) = slice d a b := by
  induction ranges generalizing a with
  | nil =>
    have hab : a = b := h
    rw [List.flatMap_nil, hab, slice, Nat.sub_self, List.take_zero]
  | cons s ranges ih =>
    obtain ⟨rfl, hrest⟩ := h
    rw [List.flatMap_cons, ih hrest, ← slice_split d (by omega) hrest.le]

/-! ## Equal streams over the same spans -/

/-- Two buffers of one length whose covered bytes agree, agree on every span. -/
theorem slice_eq_of_coveredBytes_eq {A B : Bytes} (hlen : A.length = B.length)
    {spans : List (Nat × Nat)} (h : coveredBytes A spans = coveredBytes B spans) :
    ∀ s ∈ spans, slice A s.1 s.2 = slice B s.1 s.2 := by
  induction spans with
  | nil => simp
  | cons s spans ih =>
    rw [coveredBytes, coveredBytes, List.flatMap_cons, List.flatMap_cons] at h
    obtain ⟨hhead, htail⟩ := List.append_inj h (by rw [length_slice, length_slice, hlen])
    intro x hx
    rcases List.mem_cons.mp hx with rfl | hx
    · exact hhead
    · exact ih htail x hx

/-! ## The headers the digest reads -/

section

variable {A B : Bytes} {header : PeHeader} {h : Nat}

/-- A layout puts the directory behind the checksum and NumberOfRvaAndSizes right before it. -/
theorem optionalLayout_eq_ok {optOffset magic : Nat} {layout : OptionalLayout}
    (hl : optionalLayout optOffset magic = .ok layout) :
    layout.checksumOff = optOffset + 64 ∧ layout.numRvaOff + 4 = layout.ddOffset ∧
      layout.checksumOff + 4 ≤ layout.numRvaOff := by
  unfold optionalLayout at hl
  split at hl
  · obtain rfl := pure_eq_ok.mp hl
    refine ⟨rfl, rfl, ?_⟩
    dsimp only
    omega
  · split at hl
    · obtain rfl := pure_eq_ok.mp hl
      refine ⟨rfl, rfl, ?_⟩
      dsimp only
      omega
    · exact absurd hl throw_ne_ok

/-- The certificate entry only depends on NumberOfRvaAndSizes if the optional header has room for
it. -/
theorem certificateEntry_congr {pe : Bytes} {ddOffset n n' optEnd : Nat}
    (hn : ddOffset + 4 * 8 + 8 ≤ optEnd → n = n') :
    certificateEntry pe ddOffset n optEnd = certificateEntry pe ddOffset n' optEnd := by
  unfold certificateEntry
  by_cases hroom : ddOffset + 4 * 8 + 8 ≤ optEnd
  · rw [hn hroom]
  · simp [hroom]

/-- Nor on the image, as long as the optional header lies in the agreement. -/
theorem AgreeBelow.certificateEntry_eq (hag : AgreeBelow A B h) {ddOffset numRva optEnd : Nat}
    (hle : optEnd ≤ h) :
    certificateEntry A ddOffset numRva optEnd = certificateEntry B ddOffset numRva optEnd := by
  unfold certificateEntry
  dsimp only
  split
  · rename_i hcond
    rw [hag.readU32_eq (by omega)]
  · rfl

/-- What `readAuthenticodeHeaders` reads, step by step. -/
theorem readAuthenticodeHeaders_eq_ok {pe : Bytes} (hparsed : parsePeHeader pe = .ok (some header))
    {headers : AuthenticodeHeaders} :
    readAuthenticodeHeaders pe = .ok headers ↔
      ∃ optHdrSize magic numRva sections,
        readU16 pe (header.coffOffset + 16) "SizeOfOptionalHeader" = .ok optHdrSize ∧
        readU16 pe (header.coffOffset + 20) "optional header magic" = .ok magic ∧
        optionalLayout (header.coffOffset + 20) magic = .ok headers.layout ∧
        readU32 pe (header.coffOffset + 20 + 60) "SizeOfHeaders" = .ok headers.sizeOfHeaders ∧
        readU32 pe headers.layout.numRvaOff "NumberOfRvaAndSizes" = .ok numRva ∧
        certificateEntry pe headers.layout.ddOffset numRva (header.coffOffset + 20 + optHdrSize)
          = .ok (headers.certEntryOff, headers.certTableSize) ∧
        headers.sizeOfHeaders ≤ pe.length ∧
        rawSectionsLoop pe header.secTableOff (List.range header.numSections) = .ok sections ∧
        headers.sections = sortSections sections := by
  unfold readAuthenticodeHeaders
  rw [hparsed, ok_bind]
  simp only [bind_eq_ok, refuseIf_eq_ok, pure_eq_ok, Nat.not_lt, Prod.exists]
  constructor
  · rintro ⟨opt, hopt, magic, hmagic, layout, hlayout, size, hsize, num, hnum, entry, certSize, hcert,
      _, hle, sections, hsections, rfl⟩
    exact ⟨opt, magic, num, sections, hopt, hmagic, hlayout, hsize, hnum, hcert, hle, hsections, rfl⟩
  · rintro ⟨opt, magic, num, sections, hopt, hmagic, hlayout, hsize, hnum, hcert, hle, hsections,
      heq⟩
    refine ⟨opt, hopt, magic, hmagic, _, hlayout, _, hsize, num, hnum, _, _, hcert, (), hle, sections,
      hsections, ?_⟩
    rw [← heq]

/-- **Two images with the same headers are hashed over the same spans**, as soon as both are
accepted. -/
theorem SameHeaders.headers_eq (hs : SameHeaders A B header h) {headersA headersB : AuthenticodeHeaders}
    (hA : readAuthenticodeHeaders A = .ok headersA) (hB : readAuthenticodeHeaders B = .ok headersB)
    (hroom : headersA.layout.checksumOff + 4 ≤ headersA.sizeOfHeaders) : headersA = headersB := by
  obtain ⟨optA, magicA, numA, sectionsA, hoptA, hmagicA, hlayoutA, hsizeA, hnumA, hcertA, -,
    hsectionsA, hsortA⟩ := (readAuthenticodeHeaders_eq_ok hs.parsed).mp hA
  obtain ⟨optB, magicB, numB, sectionsB, hoptB, hmagicB, hlayoutB, hsizeB, hnumB, hcertB, -,
    hsectionsB, hsortB⟩ := (readAuthenticodeHeaders_eq_ok hs.parsed_right).mp hB
  have hsech := hs.secTableOff_le
  have hopt := hs.optional_eq
  have hsoh := hs.headers_le _ hsizeA
  have hoptVal : optA = uintAt A (header.coffOffset + 16) 2 := (readU16_eq_ok.mp hoptA).2
  obtain ⟨hcheck, hdd, hnumLe⟩ := optionalLayout_eq_ok hlayoutA
  -- SizeOfHeaders covers the checksum, so it covers itself and the magic
  have hoptEq : optA = optB := by
    rw [hs.toAgreeBelow.readU16_eq (by omega)] at hoptA
    exact ok_unique hoptA hoptB
  have hmagicEq : magicA = magicB := by
    rw [hs.toAgreeBelow.readU16_eq (by omega)] at hmagicA
    exact ok_unique hmagicA hmagicB
  have hsizeEq : headersA.sizeOfHeaders = headersB.sizeOfHeaders := by
    rw [hs.toAgreeBelow.readU32_eq (by omega)] at hsizeA
    exact ok_unique hsizeA hsizeB
  have hlayoutEq : headersA.layout = headersB.layout := by
    rw [hmagicEq] at hlayoutA
    exact ok_unique hlayoutA hlayoutB
  have hsectionsEq : headersA.sections = headersB.sections := by
    rw [hs.rawSectionsLoop_eq fun i hi => List.mem_range.mp hi] at hsectionsA
    rw [hsortA, hsortB, ok_unique hsectionsA hsectionsB]
  have hcertEq : (headersA.certEntryOff, headersA.certTableSize)
      = (headersB.certEntryOff, headersB.certTableSize) := by
    -- NumberOfRvaAndSizes matters only where it lies in the optional header
    have hcongr : certificateEntry B headersA.layout.ddOffset numA (header.coffOffset + 20 + optA)
        = certificateEntry B headersA.layout.ddOffset numB (header.coffOffset + 20 + optA) := by
      apply certificateEntry_congr
      intro hle
      rw [hs.toAgreeBelow.readU32_eq (by omega), hlayoutEq] at hnumA
      exact ok_unique hnumA hnumB
    rw [hs.toAgreeBelow.certificateEntry_eq (by omega), hcongr, hlayoutEq, hoptEq] at hcertA
    exact ok_unique hcertA hcertB
  cases headersA
  cases headersB
  simp_all

/-- The spans hashed are determined by the headers and the file length. -/
theorem authenticodeSpans_eq_ok {pe : Bytes} {spans : List (Nat × Nat)} :
    authenticodeSpans pe = .ok spans ↔ ∃ headers, readAuthenticodeHeaders pe = .ok headers ∧
      afterCertEntry (headers.layout.checksumOff + 4) headers.certEntryOff ≤ headers.sizeOfHeaders ∧
      ¬ (headers.certTableSize ≠ 0 ∧ (pe.length : Int) - headers.certTableSize
        < (headers.sizeOfHeaders + (headers.sections.map Prod.snd).sum : Nat)) ∧
      spans = headerSpans headers.layout.checksumOff headers.certEntryOff headers.sizeOfHeaders
        ++ headers.sections.map (fun s => (s.1, s.1 + s.2))
        ++ tailSpans (headers.sizeOfHeaders + (headers.sections.map Prod.snd).sum)
            (pe.length - headers.certTableSize) := by
  simp only [authenticodeSpans, bind_eq_ok, refuseIf_eq_ok, pure_eq_ok, Nat.not_lt]
  constructor
  · rintro ⟨headers, hread, _, hle, _, hcert, rfl⟩
    exact ⟨headers, hread, hle, hcert, rfl⟩
  · rintro ⟨headers, hread, hle, hcert, rfl⟩
    exact ⟨headers, hread, (), hle, (), hcert, rfl⟩

/-- The certificate entry lies behind the checksum. -/
theorem certificateEntry_eq_ok {pe : Bytes} {ddOffset numRva optEnd size : Nat} {entry : Option Nat}
    (hc : certificateEntry pe ddOffset numRva optEnd = .ok (entry, size)) :
    entry = none ∨ entry = some (ddOffset + 4 * 8) := by
  unfold certificateEntry at hc
  dsimp only at hc
  split at hc
  · simp only [bind_eq_ok, pure_eq_ok, Prod.mk.injEq] at hc
    obtain ⟨_, -, rfl, -⟩ := hc
    exact Or.inr rfl
  · obtain ⟨rfl, -⟩ := Prod.mk.inj (pure_eq_ok.mp hc)
    exact Or.inl rfl

/-- **The stream tells images apart.** Two images with the same headers whose sections tile the file
behind the headers, both accepted, are hashed over different streams if they differ. -/
theorem SameHeaders.authenticodeStream_ne (hs : SameHeaders A B header h)
    {headers : AuthenticodeHeaders} (hread : readAuthenticodeHeaders A = .ok headers)
    (htiles : Tiles headers.sections headers.sizeOfHeaders A.length) {streamA streamB : Bytes}
    (hA : authenticodeStream A = .ok streamA) (hB : authenticodeStream B = .ok streamB)
    (hne : A ≠ B) : streamA ≠ streamB := by
  simp only [authenticodeStream, bind_eq_ok, pure_eq_ok] at hA hB
  obtain ⟨spansA, hspansA, rfl⟩ := hA
  obtain ⟨spansB, hspansB, rfl⟩ := hB
  obtain ⟨headersA, hreadA, hleA, -, hA⟩ := authenticodeSpans_eq_ok.mp hspansA
  obtain ⟨headersB, hreadB, -, -, hB⟩ := authenticodeSpans_eq_ok.mp hspansB
  obtain rfl : headers = headersA := ok_unique hread hreadA
  -- an accepted image has its checksum inside the headers
  have hroom : headers.layout.checksumOff + 4 ≤ headers.sizeOfHeaders := by
    obtain ⟨_, _, _, _, -, -, hlayout, -, -, hcert, -⟩ :=
      (readAuthenticodeHeaders_eq_ok hs.parsed).mp hread
    have hdd := optionalLayout_eq_ok hlayout
    rcases certificateEntry_eq_ok hcert with hentry | hentry <;>
      rw [hentry, afterCertEntry] at hleA <;> omega
  have hheaders := hs.headers_eq hread hreadB hroom
  -- same headers and same length, so the same spans
  have hspans : spansA = spansB := by rw [hA, hB, hheaders, hs.length_eq]
  subst hspans
  intro heq
  apply hne
  -- equal streams agree on every section, and the sections cover everything behind the headers
  have hslices := slice_eq_of_coveredBytes_eq hs.length_eq heq
  obtain ⟨ordered, hperm, hcons⟩ := htiles
  have hsection : ∀ s ∈ ordered, slice A s.1 (s.1 + s.2) = slice B s.1 (s.1 + s.2) := by
    intro s hsmem
    refine hslices (s.1, s.1 + s.2) ?_
    rw [hA]
    simp only [List.mem_append, List.mem_map]
    exact Or.inl (Or.inr ⟨s, hperm.subset hsmem, rfl⟩)
  have hrest : slice A headers.sizeOfHeaders A.length = slice B headers.sizeOfHeaders A.length := by
    rw [← hcons.flatMap_slice A, ← hcons.flatMap_slice B]
    exact List.flatMap_congr hsection
  have hfront : slice A 0 headers.sizeOfHeaders = slice B 0 headers.sizeOfHeaders := by
    obtain ⟨_, _, _, _, -, -, -, hsize, -⟩ := (readAuthenticodeHeaders_eq_ok hs.parsed).mp hread
    exact hs.toAgreeBelow.slice_eq (hs.headers_le _ hsize)
  have hwhole : ∀ d : Bytes, d.length = A.length → d = slice d 0 A.length := by
    intro d hd
    rw [slice, List.drop_zero, Nat.sub_zero, ← hd, List.take_length]
  rw [hwhole A rfl, hwhole B hs.length_eq.symm, slice_split A (Nat.zero_le _) hcons.le,
    slice_split B (Nat.zero_le _) hcons.le, hfront, hrest]

end

end CvmMeasure.Pe
