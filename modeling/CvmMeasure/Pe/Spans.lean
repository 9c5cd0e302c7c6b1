import CvmMeasure.Pe.HeaderReads
import CvmMeasure.Pe.Refusals
import CvmMeasure.Range.Positions

/-! # The spans of the Authenticode hash

A slice clamps instead of failing, so what `pe_authenticode_digest` hashes is only what it seems to be
if every span lies in the file.

* **`authenticodeSpans_inBounds`**: it does, so the number of bytes hashed is the one the headers
  declare;
* **`authenticode_no_clamp`**: the digest raises `ValueError` or hashes such spans, and an image whose
  last section ends with the file has no acceptable prefix;
* **`authenticode_preimage`**: if the sections tile the file behind the headers, what is hashed is the
  whole file without the CheckSum, the certificate entry and the certificate table. -/

namespace CvmMeasure.Pe

open Binary Python Range

/-! ## Every span lies in the file -/

/-- Sections with raw data lie in the file. -/
theorem rawSectionsLoop_inBounds {pe : Bytes} {secTableOff : Nat} {is : List Nat}
    {sections : List (Nat × Nat)} (h : rawSectionsLoop pe secTableOff is = .ok sections) :
    ∀ s ∈ sections, 0 < s.2 ∧ s.1 + s.2 ≤ pe.length := by
  induction is generalizing sections with
  | nil =>
    obtain rfl := pure_eq_ok.mp h
    simp
  | cons i is ih =>
    simp only [rawSectionsLoop, bind_eq_ok] at h
    obtain ⟨_, -, rawSize, -, rawPtr, -, h⟩ := h
    split at h
    · exact ih h
    · rename_i hne
      simp only [bind_eq_ok, refuseIf_eq_ok, pure_eq_ok, not_lt] at h
      obtain ⟨_, hle, rest, hrest, rfl⟩ := h
      exact List.forall_mem_cons.mpr ⟨⟨by omega, hle⟩, ih hrest⟩

section

variable {pe : Bytes} {headers : AuthenticodeHeaders}

/-- The sections of an accepted image lie in the file and are not empty. -/
theorem sections_inBounds (h : readAuthenticodeHeaders pe = .ok headers) :
    ∀ s ∈ headers.sections, 0 < s.2 ∧ s.1 + s.2 ≤ pe.length := by
  obtain ⟨header, hparsed⟩ := exists_header h
  obtain ⟨_, _, _, sections, -, -, -, -, -, -, -, hloop, hsort⟩ :=
    (readAuthenticodeHeaders_eq_ok hparsed).mp h
  intro s hs
  rw [hsort] at hs
  exact rawSectionsLoop_inBounds hloop s ((List.perm_insertionSort pairLe sections).subset hs)

/-- The headers lie in the file. -/
theorem sizeOfHeaders_le (h : readAuthenticodeHeaders pe = .ok headers) :
    headers.sizeOfHeaders ≤ pe.length := by
  obtain ⟨header, hparsed⟩ := exists_header h
  obtain ⟨_, _, _, _, -, -, -, -, -, -, hle, -⟩ := (readAuthenticodeHeaders_eq_ok hparsed).mp h
  exact hle

/-- The certificate entry lies behind the CheckSum. -/
theorem checksum_le_entry (h : readAuthenticodeHeaders pe = .ok headers) :
    ∀ e ∈ headers.certEntryOff, headers.layout.checksumOff + 4 ≤ e := by
  obtain ⟨header, horder⟩ := exists_fieldOrder h
  have hle := horder.checksum_le
  have hdd := horder.numRva_eq
  intro e he
  have := (horder.entry_eq e he).1
  omega

/-- **Every span that is hashed lies in the file.** -/
theorem authenticodeSpans_inBounds {spans : List (Nat × Nat)} (h : authenticodeSpans pe = .ok spans) :
    ∀ s ∈ spans, s.1 ≤ s.2 ∧ s.2 ≤ pe.length := by
  obtain ⟨headers, hread, hroom, -, rfl⟩ := authenticodeSpans_eq_ok.mp h
  have hsize := sizeOfHeaders_le hread
  have hentry := checksum_le_entry hread
  refine List.forall_mem_append.mpr ⟨List.forall_mem_append.mpr ⟨?_, ?_⟩, ?_⟩
  · -- the header spans, around the CheckSum and the certificate entry
    unfold headerSpans
    cases hcert : headers.certEntryOff with
    | none =>
      rw [hcert, afterCertEntry] at hroom
      simp only [List.forall_mem_cons, List.not_mem_nil, false_implies, implies_true, and_true]
      omega
    | some e =>
      rw [hcert, afterCertEntry] at hroom
      have := hentry e hcert
      simp only [List.forall_mem_cons, List.not_mem_nil, false_implies, implies_true, and_true]
      omega
  · intro s hs
    obtain ⟨t, ht, rfl⟩ := List.mem_map.mp hs
    exact ⟨Nat.le_add_right _ _, (sections_inBounds hread t ht).2⟩
  · unfold tailSpans
    split
    · simp only [List.forall_mem_cons, List.not_mem_nil, false_implies, implies_true, and_true]
      omega
    · simp

/-! ## How much is hashed -/

/-- Spans in the file cover as many bytes as their sizes say. -/
theorem length_coveredBytes {spans : List (Nat × Nat)} (h : ∀ s ∈ spans, s.2 ≤ pe.length) :
    (coveredBytes pe spans).length = (spans.map fun s => s.2 - s.1).sum := by
  rw [coveredBytes, List.length_flatMap]
  congr 1
  exact List.map_congr_left fun s hs => length_slice_of_le (h s hs)

/-- The header spans leave out the CheckSum and the certificate entry. -/
theorem sum_headerSpans (h : readAuthenticodeHeaders pe = .ok headers)
    (hroom : afterCertEntry (headers.layout.checksumOff + 4) headers.certEntryOff
      ≤ headers.sizeOfHeaders) :
    (((headerSpans headers.layout.checksumOff headers.certEntryOff headers.sizeOfHeaders).map
        fun s => s.2 - s.1).sum : Nat)
      = (headers.sizeOfHeaders : Int) - 4 - (if headers.certEntryOff.isSome then 8 else 0) := by
  have hentry := checksum_le_entry h
  unfold headerSpans
  cases hcert : headers.certEntryOff with
  | none =>
    rw [hcert, afterCertEntry] at hroom
    simp only [List.map_cons, List.map_nil, List.sum_cons, List.sum_nil, Option.isSome_none,
      Bool.false_eq_true, if_false]
    omega
  | some e =>
    rw [hcert, afterCertEntry] at hroom
    have := hentry e hcert
    simp only [List.map_cons, List.map_nil, List.sum_cons, List.sum_nil, Option.isSome_some, if_true]
    omega

/-- The sections' spans are as long as their raw sizes. -/
theorem map_size_sections (sections : List (Nat × Nat)) :
    ((sections.map fun s => (s.1, s.1 + s.2)).map fun s => s.2 - s.1) = sections.map Prod.snd := by
  rw [List.map_map]
  exact List.map_congr_left fun s _ => Nat.add_sub_cancel_left s.1 s.2

/-- **The number of bytes hashed** is what the headers and the file length say. -/
theorem length_authenticode {spans : List (Nat × Nat)} (hread : readAuthenticodeHeaders pe = .ok headers)
    (h : authenticodeSpans pe = .ok spans) :
    ((coveredBytes pe spans).length : Int)
      = headers.sizeOfHeaders - 4 - (if headers.certEntryOff.isSome then 8 else 0)
        + (headers.sections.map Prod.snd).sum
        + max 0 ((pe.length : Int) - headers.certTableSize - headers.sizeOfHeaders
          - (headers.sections.map Prod.snd).sum) := by
  rw [length_coveredBytes fun s hs => (authenticodeSpans_inBounds h s hs).2]
  obtain ⟨headers', hread', hroom, -, rfl⟩ := authenticodeSpans_eq_ok.mp h
  obtain rfl := ok_unique hread hread'
  have hheaders := sum_headerSpans hread hroom
  rw [List.map_append, List.map_append, List.sum_append, List.sum_append, map_size_sections]
  unfold tailSpans
  split
  · simp only [List.map_cons, List.map_nil, List.sum_cons, List.sum_nil]
    omega
  · simp only [List.map_nil, List.sum_nil]
    omega

/-! ## Prefixes -/

/-- Some section (with raw data, as everywhere in the digest) ends exactly at the end of the file, or
the header block if there is none. -/
def EndsWithFile (pe : Bytes) (headers : AuthenticodeHeaders) : Prop :=
  (∃ s ∈ headers.sections, s.1 + s.2 = pe.length) ∨
    (headers.sections = [] ∧ headers.sizeOfHeaders = pe.length)

/-- A prefix that is accepted has the headers of the whole image, so these end before the prefix
does. -/
theorem not_endsWithFile_of_take {k : Nat} (hk : k < pe.length)
    (h : readAuthenticodeHeaders pe = .ok headers) {headers' : AuthenticodeHeaders}
    (h' : readAuthenticodeHeaders (pe.take k) = .ok headers') : ¬ EndsWithFile pe headers := by
  have hlength : (pe.take k).length = k := by
    rw [List.length_take]
    omega
  have hagree := readAuthenticodeHeaders_agree (agreeOutside_of_isPrefix (List.take_prefix k pe)) h'
    (by intro s hs; cases hs)
  obtain rfl := ok_unique h hagree
  rintro (⟨s, hs, hend⟩ | ⟨-, hend⟩)
  · have := (sections_inBounds h' s hs).2
    omega
  · have hle := sizeOfHeaders_le h'
    dsimp only at hend
    omega

end

/-- **No span of the Authenticode hash is clamped.** The digest raises `ValueError`, or it hashes spans
that lie in the file, as many bytes as the headers declare; and if a section, or the header block of an
image without sections, ends exactly at the end of the file, every proper prefix is refused. -/
theorem authenticode_no_clamp (hash : Bytes → Bytes) (pe : Bytes) :
    (∃ message, peAuthenticodeDigest hash pe = .error (.valueError message)) ∨
    ∃ headers spans, readAuthenticodeHeaders pe = .ok headers ∧ authenticodeSpans pe = .ok spans ∧
      peAuthenticodeDigest hash pe = .ok (hash (coveredBytes pe spans)) ∧
      (∀ s ∈ spans, s.1 ≤ s.2 ∧ s.2 ≤ pe.length) ∧
      ((coveredBytes pe spans).length : Int)
        = headers.sizeOfHeaders - 4 - (if headers.certEntryOff.isSome then 8 else 0)
          + (headers.sections.map Prod.snd).sum
          + max 0 ((pe.length : Int) - headers.certTableSize - headers.sizeOfHeaders
            - (headers.sections.map Prod.snd).sum) ∧
      (EndsWithFile pe headers → ∀ k < pe.length,
        ∃ message, peAuthenticodeDigest hash (pe.take k) = .error (.valueError message)) := by
  have hdigest : ∀ image, OnlyValueError (peAuthenticodeDigest hash image) := fun image =>
    ((onlyValueError_authenticodeSpans image).andThen fun _ => onlyValueError_pure _).andThen
      fun _ => onlyValueError_pure _
  rcases (hdigest pe).ok_or_valueError with ⟨digest, hok⟩ | herror
  · right
    simp only [peAuthenticodeDigest, authenticodeStream, bind_eq_ok, pure_eq_ok] at hok
    obtain ⟨_, ⟨spans, hspans, rfl⟩, rfl⟩ := hok
    obtain ⟨headers, hread, -⟩ := authenticodeSpans_eq_ok.mp hspans
    refine ⟨headers, spans, hread, hspans, ?_, authenticodeSpans_inBounds hspans,
      length_authenticode hread hspans, fun hends k hk => ?_⟩
    · rw [peAuthenticodeDigest, authenticodeStream, hspans]
      rfl
    · refine (hdigest (pe.take k)).ok_or_valueError.resolve_left ?_
      rintro ⟨digest, hprefix⟩
      simp only [peAuthenticodeDigest, authenticodeStream, bind_eq_ok] at hprefix
      obtain ⟨_, ⟨_, hspans', -⟩, -⟩ := hprefix
      obtain ⟨headers', hread', -⟩ := authenticodeSpans_eq_ok.mp hspans'
      exact not_endsWithFile_of_take hk hread hread' hends
  · exact Or.inl herror

/-! ## Contiguous images -/

section

variable {pe : Bytes} {headers : AuthenticodeHeaders}

/-- Sections one behind the other, as ranges. -/
theorem Consecutive.follows {ranges : List (Nat × Nat)} {a b : Nat} (h : Consecutive a ranges b) :
    Follows a (ranges.map fun s => (s.1, s.1 + s.2)) b := by
  induction ranges generalizing a with
  | nil => exact h
  | cons s ranges ih =>
    obtain ⟨rfl, hrest⟩ := h
    exact ⟨rfl, Nat.le_add_right _ _, ih hrest⟩

/-- Consecutive non-empty ranges are in file order. -/
theorem Consecutive.pairwise {ranges : List (Nat × Nat)} {a b : Nat} (h : Consecutive a ranges b)
    (hne : ∀ s ∈ ranges, 0 < s.2) : ranges.Pairwise pairLe := by
  have hascending := h.follows.ascending fun r hr => by
    obtain ⟨s, hs, rfl⟩ := List.mem_map.mp hr
    exact Nat.lt_add_of_pos_right (hne s hs)
  have hordered := List.pairwise_map.mp hascending.ordered
  refine hordered.imp_of_mem fun {s t} hs _ hle => Or.inl ?_
  have := hne s hs
  dsimp only at hle
  omega

/-- Sections that tile an interval are consecutive as they are sorted. -/
theorem consecutive_of_tiles {b : Nat} (h : readAuthenticodeHeaders pe = .ok headers)
    (htiles : Tiles headers.sections headers.sizeOfHeaders b) :
    Consecutive headers.sizeOfHeaders headers.sections b := by
  obtain ⟨ordered, hperm, hcons⟩ := htiles
  have hsorted : headers.sections.Pairwise pairLe := by
    obtain ⟨header, hparsed⟩ := exists_header h
    obtain ⟨_, _, _, sections, -, -, -, -, -, -, -, -, hsort⟩ :=
      (readAuthenticodeHeaders_eq_ok hparsed).mp h
    have : Std.Total pairLe := ⟨fun a b => by unfold pairLe; omega⟩
    have : IsTrans (Nat × Nat) pairLe := ⟨fun a b c => by unfold pairLe; omega⟩
    rw [hsort]
    exact List.pairwise_insertionSort pairLe sections
  have hordered := hcons.pairwise fun s hs => (sections_inBounds h s (hperm.subset hs)).1
  have hanti : ∀ s t : Nat × Nat, pairLe s t → pairLe t s → s = t := by
    rintro ⟨a, b⟩ ⟨c, d⟩ hst hts
    simp only [pairLe] at hst hts
    exact Prod.ext (by omega) (by omega)
  have heq : ordered = headers.sections :=
    hperm.eq_of_pairwise (fun s t _ _ => hanti s t) hordered hsorted
  rwa [heq] at hcons

/-- The pieces of a contiguous image whose sections end at `b`, each hashed or left out. -/
def filePieces (headers : AuthenticodeHeaders) (b length : Nat) : List ((Nat × Nat) × Bool) :=
  (match headers.certEntryOff with
    | some e =>
      [((0, headers.layout.checksumOff), true),
        ((headers.layout.checksumOff, headers.layout.checksumOff + 4), false),
        ((headers.layout.checksumOff + 4, e), true), ((e, e + 8), false),
        ((e + 8, headers.sizeOfHeaders), true)]
    | none =>
      [((0, headers.layout.checksumOff), true),
        ((headers.layout.checksumOff, headers.layout.checksumOff + 4), false),
        ((headers.layout.checksumOff + 4, headers.sizeOfHeaders), true)])
  ++ headers.sections.map (fun s => ((s.1, s.1 + s.2), true))
  ++ [((b, length - headers.certTableSize), true), ((length - headers.certTableSize, length), false)]

/-- What the digest leaves out: the CheckSum, the certificate entry if there is one, and the
certificate table at the end of the file. -/
def deletedSpans (headers : AuthenticodeHeaders) (length : Nat) : List (Nat × Nat) :=
  (headers.layout.checksumOff, headers.layout.checksumOff + 4)
    :: (headers.certEntryOff.map fun e => (e, e + 8)).toList
    ++ [(length - headers.certTableSize, length)]

/-- The pieces follow one another through the whole file. -/
theorem filePieces_follows {b length : Nat} (h : readAuthenticodeHeaders pe = .ok headers)
    (hroom : afterCertEntry (headers.layout.checksumOff + 4) headers.certEntryOff
      ≤ headers.sizeOfHeaders)
    (hcons : Consecutive headers.sizeOfHeaders headers.sections b)
    (hb : b + headers.certTableSize ≤ length) :
    Follows 0 ((filePieces headers b length).map Prod.fst) length := by
  have hentry := checksum_le_entry h
  unfold filePieces
  rw [List.map_append, List.map_append]
  refine Follows.append (b := b) (Follows.append (b := headers.sizeOfHeaders) ?_ ?_) ?_
  · cases hcert : headers.certEntryOff with
    | none =>
      rw [hcert, afterCertEntry] at hroom
      exact ⟨rfl, Nat.zero_le _, rfl, Nat.le_add_right _ _, rfl, hroom, rfl⟩
    | some e =>
      rw [hcert, afterCertEntry] at hroom
      exact ⟨rfl, Nat.zero_le _, rfl, Nat.le_add_right _ _, rfl, hentry e hcert, rfl,
        Nat.le_add_right _ _, rfl, hroom, rfl⟩
  · rw [List.map_map]
    exact hcons.follows
  · exact ⟨rfl, by dsimp only; omega, rfl, Nat.sub_le _ _, rfl⟩

/-- What is kept of the file are the spans of the headers, the sections and what follows them, -/
theorem kept_filePieces (headers : AuthenticodeHeaders) (b length : Nat) :
    kept (filePieces headers b length)
      = headerSpans headers.layout.checksumOff headers.certEntryOff headers.sizeOfHeaders
        ++ headers.sections.map (fun s => (s.1, s.1 + s.2)) ++ [(b, length - headers.certTableSize)] := by
  have hsections : ((headers.sections.map fun s => ((s.1, s.1 + s.2), true)).filter
      fun p => p.2).map Prod.fst = headers.sections.map fun s => (s.1, s.1 + s.2) := by
    rw [List.filter_eq_self.mpr (by simp), List.map_map]
    rfl
  unfold kept filePieces headerSpans
  rw [List.filter_append, List.filter_append, List.map_append, List.map_append, hsections]
  cases headers.certEntryOff with
  | none => rfl
  | some e => rfl

/-- and what is dropped are the deleted spans. -/
theorem dropped_filePieces (headers : AuthenticodeHeaders) (b length : Nat) :
    dropped (filePieces headers b length) = deletedSpans headers length := by
  have hsections : (headers.sections.map fun s => ((s.1, s.1 + s.2), true)).filter
      (fun p => !p.2) = [] :=
    List.filter_eq_nil_iff.mpr (by simp)
  unfold dropped filePieces deletedSpans
  rw [List.filter_append, List.filter_append, hsections, List.append_nil, List.map_append]
  cases headers.certEntryOff with
  | none => rfl
  | some e => rfl

/-- The tail span, if it is hashed or empty. -/
theorem positions_tailSpans {b length size : Nat} (h : b + size ≤ length) :
    positions (tailSpans b ((length : Int) - size)) = positions [(b, length - size)] := by
  unfold tailSpans
  by_cases hgt : ((length : Int) - size) > b
  · have hend : ((length : Int) - size).toNat = length - size := by omega
    rw [if_pos hgt, hend]
  · have hempty : length - size - b = 0 := by omega
    rw [if_neg hgt, positions_cons]
    show [] = List.range' b (length - size - b) ++ []
    rw [hempty]
    rfl

/-- The bytes covered are those at the positions. -/
theorem coveredBytes_eq_select (pe : Bytes) (spans : List (Nat × Nat)) :
    coveredBytes pe spans = select pe (positions spans) := by
  induction spans with
  | nil => rfl
  | cons s spans ih =>
    rw [positions_cons, select_append, ← ih, select_range']
    rfl

/-- The certificate table lies behind the sections of an accepted contiguous image. -/
theorem end_add_certTableSize_le {spans : List (Nat × Nat)} {b : Nat}
    (hread : readAuthenticodeHeaders pe = .ok headers) (hspans : authenticodeSpans pe = .ok spans)
    (hcons : Consecutive headers.sizeOfHeaders headers.sections b) :
    b + headers.certTableSize ≤ pe.length ∧
      headers.sizeOfHeaders + (headers.sections.map Prod.snd).sum = b := by
  obtain ⟨headers', hread', -, hcert, -⟩ := authenticodeSpans_eq_ok.mp hspans
  obtain rfl := ok_unique hread hread'
  have hsum := hcons.follows.add_sum_size
  rw [map_size_sections] at hsum
  have hle : b ≤ pe.length := by
    rcases hcons.le.eq_or_lt with heq | hlt
    · exact heq ▸ sizeOfHeaders_le hread
    · -- the last byte in front of `b` lies in a section
      have hlast : b - 1 ∈ covered (headers.sections.map fun s => (s.1, s.1 + s.2)) :=
        hcons.follows.mem_covered.mpr (by omega)
      obtain ⟨r, hr, -, hin⟩ := hlast
      obtain ⟨s, hs, rfl⟩ := List.mem_map.mp hr
      have := (sections_inBounds hread s hs).2
      dsimp only at hin
      omega
  rw [hsum] at hcert
  exact ⟨by omega, hsum⟩

end

/-- **The Authenticode preimage of a contiguous image.** If the sections of an accepted image tile a
range that starts at SizeOfHeaders, the bytes hashed are the whole file without the CheckSum, the
certificate entry if the optional header has one, and the last certificate-table-size bytes; every
other position is hashed exactly once and in file order. -/
theorem authenticode_preimage (hash : Bytes → Bytes) {pe digest : Bytes}
    {headers : AuthenticodeHeaders} {b : Nat} (h : peAuthenticodeDigest hash pe = .ok digest)
    (hread : readAuthenticodeHeaders pe = .ok headers)
    (htiles : Tiles headers.sections headers.sizeOfHeaders b) :
    ∃ spans, authenticodeSpans pe = .ok spans ∧
      positions spans = (List.range pe.length).filter (outside (deletedSpans headers pe.length)) ∧
      coveredBytes pe spans = deleteRanges pe (deletedSpans headers pe.length) ∧
      digest = hash (deleteRanges pe (deletedSpans headers pe.length)) := by
  simp only [peAuthenticodeDigest, authenticodeStream, bind_eq_ok, pure_eq_ok] at h
  obtain ⟨_, ⟨spans, hspans, rfl⟩, rfl⟩ := h
  have hcons := consecutive_of_tiles hread htiles
  obtain ⟨hend, hsum⟩ := end_add_certTableSize_le hread hspans hcons
  have hpositions : positions spans
      = (List.range pe.length).filter (outside (deletedSpans headers pe.length)) := by
    obtain ⟨headers', hread', hroom, -, rfl⟩ := authenticodeSpans_eq_ok.mp hspans
    obtain rfl := ok_unique hread hread'
    have hfollows := (filePieces_follows hread hroom hcons hend).positions_kept
    rw [kept_filePieces, dropped_filePieces, Nat.sub_zero, ← List.range_eq_range'] at hfollows
    rw [hsum, positions_append, positions_tailSpans hend, ← positions_append, hfollows]
  have hbytes : coveredBytes pe spans = deleteRanges pe (deletedSpans headers pe.length) := by
    rw [coveredBytes_eq_select, hpositions]
    rfl
  exact ⟨spans, hspans, hpositions, hbytes, congrArg hash hbytes⟩

/-- A PE32+ image whose table lists its two sections against their order in the file, with a
certificate table behind them. -/
def sampleImage (certificate : Bytes) : Bytes :=
  asciiBytes "MZ" ++ List.replicate 58 0x00 ++ leBytes 4 64
    ++ peSignature ++ leBytes 2 0x8664 ++ leBytes 2 2 ++ List.replicate 12 0x00 ++ leBytes 2 152
    ++ leBytes 2 0
    ++ leBytes 2 0x20B ++ List.replicate 54 0x00 ++ leBytes 4 0x3000 ++ leBytes 4 320 ++ leBytes 4 0
    ++ List.replicate 40 0x00 ++ leBytes 4 5
    ++ List.replicate 32 0x00 ++ leBytes 4 328 ++ leBytes 4 certificate.length
    ++ sampleSectionEntry ".linux" 4 0x2000 324 ++ sampleSectionEntry ".text" 4 0x1000 320
    ++ [0xA1, 0xA2, 0xA3, 0xA4] ++ [0xB1, 0xB2, 0xB3, 0xB4] ++ certificate

/-- Of the small image, everything is hashed but the CheckSum, the certificate entry and the
certificate. -/
theorem authenticode_preimage_sample :
    ∃ digest spans, peAuthenticodeDigest id (sampleImage [0xC1, 0xC2]) = .ok digest ∧
      authenticodeSpans (sampleImage [0xC1, 0xC2]) = .ok spans ∧
      digest = deleteRanges (sampleImage [0xC1, 0xC2]) [(152, 156), (232, 240), (328, 330)] := by
  obtain ⟨digest, hdigest⟩ := exists_of_isOk
    (show (peAuthenticodeDigest id (sampleImage [0xC1, 0xC2])).isOk = true by decide +kernel)
  have hlen : (sampleImage [0xC1, 0xC2]).length = 330 := by decide +kernel
  have hread : readAuthenticodeHeaders (sampleImage [0xC1, 0xC2])
      = .ok ⟨⟨152, 196, 200⟩, 320, some 232, 2, [(320, 4), (324, 4)]⟩ := by decide +kernel
  have htiles : Tiles [(320, 4), (324, 4)] 320 328 :=
    ⟨[(320, 4), (324, 4)], List.Perm.refl _, rfl, rfl, rfl⟩
  obtain ⟨spans, hspans, -, -, heq⟩ := authenticode_preimage id hdigest hread htiles
  have hcuts : deletedSpans ⟨⟨152, 196, 200⟩, 320, some 232, 2, [(320, 4), (324, 4)]⟩ 330
      = [(152, 156), (232, 240), (328, 330)] := by decide
  rw [hlen, hcuts, id_eq] at heq
  exact ⟨digest, spans, hdigest, hspans, heq⟩

end CvmMeasure.Pe
