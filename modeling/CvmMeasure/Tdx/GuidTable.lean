import CvmMeasure.Binary.Chunks
import CvmMeasure.Tdx.Metadata

/-! # The GUID table

An OVMF image ends in a table of blocks, each with its own size and GUID at its end, so that
`_parse_fw_guid_table` walks it backwards. This file says what a table is and what the walk makes of it.

* **`IsBlock`**: a block that declares its own length; **`Splits`**: bytes cut into such blocks;
* **`Splits.unique`**: there is at most one way to cut them;
* **`guidTableLoop_splits`**, **`splits_or_refused`**: the walk returns exactly on such bytes, with the
  blocks in a dictionary;
* **`table_declared_iff`**: when the table walked is the table the footer declares. -/

namespace CvmMeasure.Tdx

open Binary Python

/-! ## Blocks -/

/-- The size a block declares, eighteen bytes before its end. -/
def blockSize (b : Bytes) : Nat := uintAt b (b.length - fwGuidEntrySize) 2

/-- The GUID of a block: its last sixteen bytes. -/
def blockGuid (b : Bytes) : Bytes := efiBytesToUuid (slice b (b.length - guidSize) b.length)

/-- A block of the table: it has room for its size and GUID, and declares its own length. -/
structure IsBlock (b : Bytes) : Prop where
  le_length : fwGuidEntrySize ≤ b.length
  size_eq : blockSize b = b.length

/-- Bytes cut into blocks, in file order. -/
structure Splits (table : Bytes) (blocks : List Bytes) : Prop where
  flatten_eq : blocks.flatten = table
  isBlock : ∀ b ∈ blocks, IsBlock b

/-- The dictionary of some blocks: the walk meets the last block first, and a block met later replaces
one of the same GUID. -/
def blockDict (blocks : List Bytes) (result : Dict Bytes Bytes) : Dict Bytes Bytes :=
  blocks.foldr (fun b dict => dict.set (blockGuid b) b) result

/-- The last block is set last. -/
theorem blockDict_concat (blocks : List Bytes) (b : Bytes) (result : Dict Bytes Bytes) :
    blockDict (blocks ++ [b]) result = blockDict blocks (result.set (blockGuid b) b) := by
  rw [blockDict, List.foldr_append]
  rfl

/-- A block may be put behind a table that splits, -/
theorem Splits.concat {table b : Bytes} {blocks : List Bytes} (h : Splits table blocks)
    (hb : IsBlock b) : Splits (table ++ b) (blocks ++ [b]) := by
  refine ⟨?_, ?_⟩
  · rw [List.flatten_append, h.flatten_eq, List.flatten_singleton]
  · exact List.forall_mem_append.mpr ⟨h.isBlock, List.forall_mem_singleton.mpr hb⟩

/-- and the last block can be taken off. -/
theorem Splits.of_concat {table b : Bytes} {blocks : List Bytes}
    (h : Splits table (blocks ++ [b])) :
    ∃ front, table = front ++ b ∧ Splits front blocks ∧ IsBlock b := by
  obtain ⟨hflatten, hblocks⟩ := h
  rw [List.flatten_append, List.flatten_singleton] at hflatten
  obtain ⟨hfront, hb⟩ := List.forall_mem_append.mp hblocks
  exact ⟨blocks.flatten, hflatten.symm, ⟨rfl, hfront⟩, hb b (List.mem_singleton_self b)⟩

/-- An empty table has no blocks, since a block is not empty. -/
theorem Splits.eq_nil {blocks : List Bytes} (h : Splits [] blocks) : blocks = [] := by
  cases blocks with
  | nil => rfl
  | cons b blocks =>
    have hle := (h.isBlock b List.mem_cons_self).le_length
    have hnil := congrArg List.length h.flatten_eq
    rw [List.flatten_cons, List.length_append, List.length_nil] at hnil
    unfold fwGuidEntrySize at hle
    omega

/-- A part of bytes that stand in a table, read in the table. -/
theorem slice_middle (front b rest : Bytes) (i : Nat) {j : Nat} (hj : j ≤ b.length) :
    slice (front ++ (b ++ rest)) (front.length + i) (front.length + j) = slice b i j := by
  have hblock := (hasAt_middle front b rest).slice_eq rfl
  rw [← slice_slice _ (Nat.add_le_add_left hj front.length), hblock]

/-- The size a block declares, read in the table. -/
theorem uintAt_blockSize (front rest : Bytes) {b : Bytes} (h : fwGuidEntrySize ≤ b.length) :
    uintAt (front ++ (b ++ rest)) (front.length + b.length - fwGuidEntrySize) 2 = blockSize b := by
  unfold fwGuidEntrySize at h
  have hoff : front.length + b.length - fwGuidEntrySize
      = front.length + (b.length - fwGuidEntrySize) := by
    unfold fwGuidEntrySize
    omega
  rw [blockSize, uintAt, uintAt, hoff, Nat.add_assoc, slice_middle]
  unfold fwGuidEntrySize
  omega

/-- The GUID of a block, read in the table. -/
theorem slice_blockGuid (front rest : Bytes) {b : Bytes} (h : fwGuidEntrySize ≤ b.length) :
    slice (front ++ (b ++ rest)) (front.length + b.length - fwGuidEntrySize + 2)
        (front.length + b.length - fwGuidEntrySize + 18)
      = slice b (b.length - guidSize) b.length := by
  unfold fwGuidEntrySize at h
  have hstart : front.length + b.length - fwGuidEntrySize + 2
      = front.length + (b.length - guidSize) := by
    unfold fwGuidEntrySize guidSize
    omega
  have hstop : front.length + b.length - fwGuidEntrySize + 18 = front.length + b.length := by
    unfold fwGuidEntrySize
    omega
  rw [hstart, hstop, slice_middle _ _ _ _ (Nat.le_refl _)]

/-- **Bytes are cut into blocks in one way**, read from the end. -/
theorem Splits.unique {table : Bytes} {blocks blocks' : List Bytes} (h : Splits table blocks)
    (h' : Splits table blocks') : blocks = blocks' := by
  induction blocks using List.reverseRecOn generalizing table blocks' with
  | nil =>
    obtain rfl : table = [] := h.flatten_eq.symm
    exact h'.eq_nil.symm
  | append_singleton blocks b ih =>
    obtain ⟨front, rfl, hfront, hb⟩ := h.of_concat
    induction blocks' using List.reverseRecOn with
    | nil =>
      have hnil : front ++ b = [] := h'.flatten_eq.symm
      rw [hnil] at h
      exact absurd h.eq_nil (List.concat_ne_nil b blocks)
    | append_singleton blocks' b' _ =>
      obtain ⟨front', heq, hfront', hb'⟩ := h'.of_concat
      -- both last blocks have the length declared at the end of the table
      have hsize : b.length = b'.length := by
        have hread := uintAt_blockSize front [] hb.le_length
        have hread' := uintAt_blockSize front' [] hb'.le_length
        rw [List.append_nil, ← List.length_append] at hread hread'
        rw [← hb.size_eq, ← hb'.size_eq, ← hread, ← hread', heq]
      obtain ⟨rfl, rfl⟩ := List.append_inj' heq hsize
      rw [ih hfront hfront']

/-! ## The walk -/

section Walk

variable {table front rest : Bytes} {fuel : Nat} {result : Dict Bytes Bytes}

/-- The walk takes the last block off what remains. -/
theorem guidTableLoop_block {b : Bytes} (htable : table = front ++ (b ++ rest)) (hb : IsBlock b) :
    guidTableLoop table (fuel + 1) (front.length + b.length) result
      = guidTableLoop table fuel front.length (result.set (blockGuid b) b) := by
  have hle := hb.le_length
  have hpos : front.length + b.length > 0 := by
    unfold fwGuidEntrySize at hle
    omega
  have hsize := (uintAt_blockSize front rest hle).trans hb.size_eq
  have hguid := slice_blockGuid front rest hle
  have hblock : slice table front.length (front.length + b.length) = b := by
    rw [htable]
    exact (hasAt_middle front b rest).slice_eq rfl
  rw [← htable] at hsize hguid
  rw [guidTableLoop, if_pos hpos]
  simp only [hsize, hguid, Nat.add_sub_cancel, hblock]
  rw [refuseIf, if_neg (by omega), refuseIf, if_neg (by omega)]
  rfl

/-- Where no block ends, the walk refuses the table. -/
theorem guidTableLoop_refuses (htable : table = front ++ rest) (hne : front ≠ [])
    (h : ∀ front' b, front = front' ++ b → ¬ IsBlock b) :
    ∃ message, guidTableLoop table (fuel + 1) front.length result = .error (.valueError message) := by
  rw [guidTableLoop, if_pos (List.length_pos_iff.mpr hne)]
  by_cases hshort : front.length < fwGuidEntrySize
  · exact ⟨_, by rw [refuseIf, if_pos hshort]; rfl⟩
  · simp only [refuseIf, if_neg hshort]
    generalize hsize : uintAt table (front.length - fwGuidEntrySize) 2 = size
    by_cases hbad : size < fwGuidEntrySize ∨ size > front.length
    · exact ⟨_, by rw [if_pos hbad]; rfl⟩
    · -- a size that fits makes the bytes before `front.length` a block
      obtain ⟨hmin, hmax⟩ := not_or.mp hbad
      obtain ⟨front', b, rfl, hlen⟩ : ∃ front' b, front = front' ++ b ∧ b.length = size := by
        refine ⟨front.take (front.length - size), front.drop (front.length - size),
          (List.take_append_drop _ _).symm, ?_⟩
        rw [List.length_drop]
        omega
      refine absurd ?_ (h front' b rfl)
      have hle : fwGuidEntrySize ≤ b.length := by omega
      refine ⟨hle, ?_⟩
      have hread := uintAt_blockSize front' rest hle
      rw [← List.append_assoc, ← htable, ← List.length_append, hsize] at hread
      rw [← hread, hlen]

/-- The walk over blocks returns their dictionary. -/
theorem guidTableLoop_splits {blocks : List Bytes} (h : Splits front blocks)
    (htable : table = front ++ rest) (hfuel : front.length < fuel) :
    guidTableLoop table fuel front.length result = .ok (blockDict blocks result) := by
  induction blocks using List.reverseRecOn generalizing front rest fuel result with
  | nil =>
    obtain rfl : front = [] := h.flatten_eq.symm
    obtain ⟨fuel, rfl⟩ := Nat.exists_eq_succ_of_ne_zero (Nat.ne_zero_of_lt hfuel)
    rfl
  | append_singleton blocks b ih =>
    obtain ⟨front', rfl, hfront, hb⟩ := h.of_concat
    obtain ⟨fuel, rfl⟩ := Nat.exists_eq_succ_of_ne_zero (Nat.ne_zero_of_lt hfuel)
    have hle := hb.le_length
    rw [List.append_assoc] at htable
    rw [List.length_append] at hfuel ⊢
    unfold fwGuidEntrySize at hle
    rw [guidTableLoop_block htable hb, ih hfront htable (by omega), blockDict_concat]

/-- **The walk returns exactly on bytes cut into blocks**; all others it refuses with `ValueError`. -/
theorem splits_or_refused (htable : table = front ++ rest) (hfuel : front.length < fuel)
    (result : Dict Bytes Bytes) :
    (∃ blocks, Splits front blocks) ∨
      ∃ message, guidTableLoop table fuel front.length result = .error (.valueError message) := by
  induction fuel generalizing front rest result with
  | zero => cases hfuel
  | succ fuel ih =>
    by_cases hne : front = []
    · exact Or.inl ⟨[], hne.symm, by simp⟩
    · by_cases hblock : ∃ front' b, front = front' ++ b ∧ IsBlock b
      · obtain ⟨front', b, rfl, hb⟩ := hblock
        have hle := hb.le_length
        rw [List.append_assoc] at htable
        rw [List.length_append] at hfuel ⊢
        unfold fwGuidEntrySize at hle
        rw [guidTableLoop_block htable hb]
        rcases ih htable (by omega) (result.set (blockGuid b) b) with ⟨blocks, h⟩ | h
        · exact Or.inl ⟨_, h.concat hb⟩
        · exact Or.inr h
      · exact Or.inr (guidTableLoop_refuses htable hne fun front' b heq hb =>
          hblock ⟨front', b, heq, hb⟩)

end Walk

/-! ## The table the footer declares -/

/-- Where the footer stands. -/
def footerOffset (firmware : Bytes) : Nat := firmware.length - fwGuidTableEndOffset - fwGuidEntrySize

/-- The size the footer declares for the blocks before it. -/
def declaredLength (firmware : Bytes) : Nat :=
  uintAt firmware (footerOffset firmware) 2 - fwGuidEntrySize

/-- The image has a footer with a size of its own. -/
structure HasFooter (firmware : Bytes) : Prop where
  le_length : fwGuidTableEndOffset + fwGuidEntrySize ≤ firmware.length
  guid_eq : efiBytesToUuid (slice firmware (footerOffset firmware + 2) (footerOffset firmware + 18))
    = fwGuidTableFooter
  le_size : fwGuidEntrySize ≤ uintAt firmware (footerOffset firmware) 2

/-- The bytes the footer declares to be the table, if the image holds as many before it. -/
def declaredTable (firmware : Bytes) : Bytes :=
  slice firmware (footerOffset firmware - declaredLength firmware) (footerOffset firmware)

/-- The slice Python takes in place of a table longer than what precedes the footer: the start is
negative, so it counts from the end of the image, or is clamped where it exceeds the image too. -/
def wrappedTable (firmware : Bytes) : Bytes :=
  slice firmware (firmware.length + footerOffset firmware - declaredLength firmware)
    (footerOffset firmware)

/-- The table parsed is the table declared: the blocks walked, in file order, are the declared bytes
before the footer, and a footer that declares more than the image holds is refused. -/
structure TableIsDeclared (firmware : Bytes) : Prop where
  parsed : ∀ dict, parseFwGuidTable firmware = .ok dict →
    declaredLength firmware ≤ footerOffset firmware ∧
      ∃ blocks, Splits (declaredTable firmware) blocks ∧ dict = blockDict blocks []
  refused : HasFooter firmware → footerOffset firmware < declaredLength firmware →
    ∃ message, parseFwGuidTable firmware = .error (.valueError message)

/-- The footer declares more than the image holds before it, and what Python slices instead is a
table: nothing, if the whole image is not shorter than declared, or else bytes that happen to be cut
into blocks. -/
structure Misread (firmware : Bytes) : Prop where
  hasFooter : HasFooter firmware
  overdeclared : footerOffset firmware < declaredLength firmware
  wraps : declaredLength firmware ≤ firmware.length ∨ ∃ blocks, Splits (wrappedTable firmware) blocks

section Footer

variable {firmware : Bytes}

/-- The parser, in the terms above. -/
theorem parseFwGuidTable_eq (firmware : Bytes) :
    parseFwGuidTable firmware = (do
      refuseIf (firmware.length < fwGuidTableEndOffset + fwGuidEntrySize) (.valueError
        s!"Firmware too small ({firmware.length} < {fwGuidTableEndOffset + fwGuidEntrySize})")
      let entryGuid :=
        efiBytesToUuid (slice firmware (footerOffset firmware + 2) (footerOffset firmware + 18))
      refuseIf (entryGuid ≠ fwGuidTableFooter)
        (.valueError s!"Missing GUID table footer (got {uuidText entryGuid})")
      let entrySize := uintAt firmware (footerOffset firmware) 2
      refuseIf (entrySize < fwGuidEntrySize)
        (.valueError s!"Invalid GUID table footer size: {entrySize}")
      let table := sliceFrom firmware ((footerOffset firmware : Int) - declaredLength firmware)
        (footerOffset firmware)
      guidTableLoop table (table.length + 1) table.length []) := rfl

/-- Without a footer the image is refused. -/
theorem parseFwGuidTable_of_not_hasFooter (h : ¬ HasFooter firmware) :
    ∃ message, parseFwGuidTable firmware = .error (.valueError message) := by
  rw [parseFwGuidTable_eq]
  dsimp only
  by_cases hshort : firmware.length < fwGuidTableEndOffset + fwGuidEntrySize
  · rw [refuseIf_of hshort]
    exact ⟨_, rfl⟩
  · rw [refuseIf_of_not hshort, ok_bind]
    by_cases hguid : efiBytesToUuid (slice firmware (footerOffset firmware + 2)
        (footerOffset firmware + 18)) ≠ fwGuidTableFooter
    · rw [refuseIf_of hguid]
      exact ⟨_, rfl⟩
    · rw [refuseIf_of_not hguid, ok_bind]
      by_cases hsize : uintAt firmware (footerOffset firmware) 2 < fwGuidEntrySize
      · rw [refuseIf_of hsize]
        exact ⟨_, rfl⟩
      · exact absurd ⟨Nat.le_of_not_lt hshort, not_not.mp hguid, Nat.le_of_not_lt hsize⟩ h

/-- The table Python slices. -/
def slicedTable (firmware : Bytes) : Bytes :=
  if declaredLength firmware ≤ footerOffset firmware then declaredTable firmware
  else wrappedTable firmware

/-- Python's slice, with its negative start, is the table that is read. -/
theorem sliceFrom_eq (firmware : Bytes) :
    sliceFrom firmware ((footerOffset firmware : Int) - declaredLength firmware)
      (footerOffset firmware) = slicedTable firmware := by
  unfold sliceFrom slicedTable declaredTable wrappedTable
  by_cases hle : declaredLength firmware ≤ footerOffset firmware
  · rw [if_pos hle, if_neg (by omega)]
    congr 1
    omega
  · rw [if_neg hle, if_pos (by omega)]
    congr 1
    omega

/-- With a footer the walk goes over the table Python slices. -/
theorem parseFwGuidTable_of_hasFooter (h : HasFooter firmware) :
    parseFwGuidTable firmware = guidTableLoop (slicedTable firmware)
      ((slicedTable firmware).length + 1) (slicedTable firmware).length [] := by
  rw [parseFwGuidTable_eq]
  dsimp only
  rw [refuseIf_of_not (Nat.not_lt_of_le h.le_length), ok_bind,
    refuseIf_of_not (not_not.mpr h.guid_eq), ok_bind,
    refuseIf_of_not (Nat.not_lt_of_le h.le_size), ok_bind, sliceFrom_eq]

/-- A table cut into blocks is returned as their dictionary. -/
theorem parseFwGuidTable_splits (h : HasFooter firmware) {blocks : List Bytes}
    (hsplits : Splits (slicedTable firmware) blocks) :
    parseFwGuidTable firmware = .ok (blockDict blocks []) := by
  rw [parseFwGuidTable_of_hasFooter h]
  exact guidTableLoop_splits hsplits (List.append_nil _).symm (Nat.lt_succ_self _)

/-- An image is parsed into the blocks of the table Python slices, or refused. -/
theorem parseFwGuidTable_outcome (firmware : Bytes) :
    (HasFooter firmware ∧ ∃ blocks, Splits (slicedTable firmware) blocks ∧
      parseFwGuidTable firmware = .ok (blockDict blocks [])) ∨
    ∃ message, parseFwGuidTable firmware = .error (.valueError message) := by
  by_cases hfooter : HasFooter firmware
  · rcases splits_or_refused (List.append_nil (slicedTable firmware)).symm
      (Nat.lt_succ_self _) [] with ⟨blocks, hsplits⟩ | ⟨message, herror⟩
    · exact Or.inl ⟨hfooter, blocks, hsplits, parseFwGuidTable_splits hfooter hsplits⟩
    · exact Or.inr ⟨message, (parseFwGuidTable_of_hasFooter hfooter).trans herror⟩
  · exact Or.inr (parseFwGuidTable_of_not_hasFooter hfooter)

/-- **The table parsed is the table declared, except on misread images.** -/
theorem table_declared_iff (firmware : Bytes) : TableIsDeclared firmware ↔ ¬ Misread firmware := by
  constructor
  · intro h hmisread
    -- what is sliced instead is a table, so the image is not refused
    obtain ⟨hfooter, hover, hwraps⟩ := hmisread
    have hsliced : slicedTable firmware = wrappedTable firmware := if_neg (Nat.not_le_of_lt hover)
    obtain ⟨blocks, hsplits⟩ : ∃ blocks, Splits (wrappedTable firmware) blocks := by
      rcases hwraps with hle | hblocks
      · refine ⟨[], ?_, by simp⟩
        have hempty : footerOffset firmware
            - (firmware.length + footerOffset firmware - declaredLength firmware) = 0 := by
          omega
        rw [wrappedTable, slice, hempty, List.take_zero]
        rfl
      · exact hblocks
    obtain ⟨message, herror⟩ := h.refused hfooter hover
    rw [parseFwGuidTable_splits hfooter (hsliced.symm ▸ hsplits)] at herror
    cases herror
  · intro hread
    refine ⟨fun dict hdict => ?_, fun hfooter hover => ?_⟩
    · rcases parseFwGuidTable_outcome firmware with ⟨hfooter, blocks, hsplits, hok⟩ | ⟨_, herror⟩
      · rw [hok] at hdict
        cases hdict
        by_cases hle : declaredLength firmware ≤ footerOffset firmware
        · rw [slicedTable, if_pos hle] at hsplits
          exact ⟨hle, blocks, hsplits, rfl⟩
        · rw [slicedTable, if_neg hle] at hsplits
          exact absurd ⟨hfooter, Nat.lt_of_not_le hle, Or.inr ⟨blocks, hsplits⟩⟩ hread
      · rw [herror] at hdict
        cases hdict
    · rcases parseFwGuidTable_outcome firmware with ⟨_, blocks, hsplits, _⟩ | herror
      · rw [slicedTable, if_neg (Nat.not_le_of_lt hover)] at hsplits
        exact absurd ⟨hfooter, hover, Or.inr ⟨blocks, hsplits⟩⟩ hread
      · exact herror

/-- A footer and nothing else, which declares one byte of table before it. -/
def overdeclaringFirmware : Bytes :=
  leBytes 2 19 ++ uuidToEfiBytes fwGuidTableFooter ++ List.replicate fwGuidTableEndOffset 0x00

/-- It is accepted, with an empty table. -/
theorem table_declared_overdeclaring : ¬ TableIsDeclared overdeclaringFirmware := by
  intro h
  have hok : parseFwGuidTable overdeclaringFirmware = .ok [] := by decide +kernel
  have hle : declaredLength overdeclaringFirmware ≤ footerOffset overdeclaringFirmware :=
    (h.parsed [] hok).1
  revert hle
  decide +kernel

end Footer

end CvmMeasure.Tdx
