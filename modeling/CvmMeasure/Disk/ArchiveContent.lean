import CvmMeasure.Disk.Archive
import CvmMeasure.Disk.GptLayout

/-! # What is measured of an archive

An archive is untrusted: its headers may lie, its streams may run on or fail, and its names may point
anywhere. The order of its members, the chunks a stream is read in and what lies beside the raw image are
accidents.

* **`extraction_confined`**: at most one file is written, inside the temporary directory and within the
  limit;
* `SameMember`, `SameArchive`: archives that differ in accidents only;
* **`measured_reordered`**: accidents change neither what is measured nor what is refused. -/

namespace CvmMeasure.Disk

open Binary Python

section

variable {crc32 : Bytes → Nat} {platform : Platform} {diskPath : String} {disk disk' : Bytes}
  {maxExtractBytes : Int}

/-! ## What is written -/

/-- **Whatever an archive holds, at most one file is written**: inside the temporary directory, within the
limit, the beginning of the one `.raw` member, which is a regular file. What is measured is what was
written. -/
theorem extraction_confined {w : Written}
    (h : (resolveRawDisk platform diskPath disk maxExtractBytes).1 = some w) :
    platform.tempDir <+: w.path ∧ (w.content.length : Int) ≤ maxExtractBytes ∧
      (∃ members member source, platform.openTar disk = .ok members ∧
        members.filter Member.isRaw = [member] ∧ member.isFile = true ∧
        member.source = some source ∧ w.content <+: source.content) ∧
      ∀ raw, (resolveRawDisk platform diskPath disk maxExtractBytes).2 = .ok raw → raw = w.content := by
  unfold resolveRawDisk at h ⊢
  by_cases hpath : isArchive diskPath = false
  · rw [if_pos hpath] at h
    cases h
  · rw [if_neg hpath] at h ⊢
    cases hopen : openMember platform diskPath disk maxExtractBytes with
    | error e =>
      rw [hopen] at h
      cases h
    | ok opened =>
      obtain ⟨member, source, resolved⟩ := opened
      obtain ⟨members, htar, hsole, hextract⟩ := openMember_eq_ok.mp hopen
      obtain ⟨hbegins, hlen⟩ := copyBounded_written source hextract.zero_le member.name
      rw [hopen] at h
      cases h
      refine ⟨hextract.confined, hlen, ?_, ?_⟩
      · exact ⟨members, member, source, htar, hsole, hextract.regular, hextract.stream, hbegins⟩
      · intro raw hraw
        simp only at hraw
        cases hresult : (copyBounded source maxExtractBytes member.name).2 with
        | error e =>
          rw [hresult] at hraw
          cases hraw
        | ok u =>
          rw [hresult] at hraw
          cases hraw
          rfl

/-! ## Accidents -/

/-- The streams deliver the same bytes and end in the same way. -/
structure SameStream (s s' : Source) : Prop where
  content : s.content = s'.content
  failure : s.failure? = s'.failure?

/-- The members are declared alike, and their streams are the same. -/
structure SameMember (m m' : Member) : Prop where
  name : m.name = m'.name
  isFile : m.isFile = m'.isFile
  size : m.size = m'.size
  source : Option.Rel SameStream m.source m'.source

/-- The same members, in any order. -/
def SameMembers (members members' : List Member) : Prop :=
  ∃ between, members.Perm between ∧ List.Forall₂ SameMember between members'

/-- The archives have the same `.raw` members; whatever else is in them may differ. -/
def SameArchive (members members' : List Member) : Prop :=
  SameMembers (members.filter Member.isRaw) (members'.filter Member.isRaw)

/-- The same members are as many. -/
theorem SameMembers.length_eq {members members' : List Member} (h : SameMembers members members') :
    members.length = members'.length := by
  obtain ⟨between, hperm, hsame⟩ := h
  exact hperm.length_eq.trans hsame.length_eq

/-- Sorted names do not tell the order of the members. -/
theorem SameMembers.sortedNames {members members' : List Member} (h : SameMembers members members') :
    sortedNames members = sortedNames members' := by
  obtain ⟨between, hperm, hsame⟩ := h
  have hnames : between.map Member.name = members'.map Member.name := by
    clear hperm
    induction hsame with
    | nil => rfl
    | cons hm _ ih => rw [List.map_cons, List.map_cons, hm.name, ih]
  have hsorted : (members.map Member.name).Perm (members'.map Member.name) := by
    rw [← hnames]
    exact hperm.map _
  unfold Disk.sortedNames
  apply List.Perm.eq_of_sortedLE List.sortedLE_insertionSort List.sortedLE_insertionSort
  exact (List.perm_insertionSort _ _).trans (hsorted.trans (List.perm_insertionSort _ _).symm)

/-- The runs return related values, or raise the same exception. -/
inductive Alike {α : Type} (R : α → α → Prop) : Py α → Py α → Prop
  | error (e : PyError) : Alike R (.error e) (.error e)
  | ok {a b : α} (h : R a b) : Alike R (.ok a) (.ok b)

/-- Steps that go alike, one behind the other. -/
theorem Alike.bind {α β : Type} {R : α → α → Prop} {S : β → β → Prop} {x y : Py α} {f g : α → Py β}
    (h : Alike R x y) (hfg : ∀ a b, R a b → Alike S (f a) (g b)) : Alike S (x >>= f) (y >>= g) := by
  cases h with
  | error e => exact Alike.error e
  | ok hab => exact hfg _ _ hab

/-- The same candidate is found, or the same refusal, -/
theorem alike_soleCandidate {members members' : List Member} (h : SameArchive members members') :
    Alike SameMember (soleCandidate diskPath members) (soleCandidate diskPath members') := by
  have hnames := SameMembers.sortedNames h
  have hlen := SameMembers.length_eq h
  obtain ⟨between, hperm, hsame⟩ := h
  unfold soleCandidate
  simp only
  generalize members.filter Member.isRaw = candidates at hperm hnames hlen ⊢
  generalize members'.filter Member.isRaw = candidates' at hsame hnames hlen ⊢
  cases hsame with
  | nil =>
    rw [hperm.eq_nil]
    exact Alike.error _
  | @cons m m' ms ms' hm hms =>
    cases hms with
    | nil =>
      rw [List.perm_singleton.mp hperm]
      exact Alike.ok hm
    | @cons n n' ns ns' _ _ =>
      -- several candidates, which are named in their order in the alphabet
      match candidates, hlen with
      | _ :: _ :: _, hlen =>
        simp only
        rw [hlen, hnames]
        exact Alike.error _

/-- and it passes the same checks. -/
theorem alike_checkMember {member member' : Member} (h : SameMember member member') :
    Alike (fun a b => SameStream a.1 b.1 ∧ a.2 = b.2)
      (checkMember platform diskPath maxExtractBytes member)
      (checkMember platform diskPath maxExtractBytes member') := by
  have hrefuse : ∀ (c : Prop) [Decidable c] (e : PyError), Alike (· = ·) (refuseIf c e) (refuseIf c e) := by
    intro c _ e
    unfold refuseIf
    split
    · exact Alike.error e
    · exact Alike.ok rfl
  unfold checkMember
  rw [h.name, h.isFile, h.size]
  refine (hrefuse _ _).bind fun _ _ _ => (hrefuse _ _).bind fun _ _ _ => (hrefuse _ _).bind fun _ _ _ => ?_
  have hsource := h.source
  cases hs : member.source with
  | none =>
    rw [hs] at hsource
    cases hs' : member'.source with
    | none => exact Alike.error _
    | some s' =>
      rw [hs'] at hsource
      cases hsource
  | some s =>
    rw [hs] at hsource
    cases hs' : member'.source with
    | none =>
      rw [hs'] at hsource
      cases hsource
    | some s' =>
      rw [hs'] at hsource
      cases hsource with
      | some hstream =>
        dsimp only
        cases platform.create (platform.resolve (joinPath platform.tempDir member'.name)) with
        | error e => exact Alike.error e
        | ok u => exact Alike.ok ⟨hstream, rfl⟩

/-- What a copy returns is known from what the stream delivers. -/
theorem copied_same {s s' : Source} {limit : Int} {name name' : String} (hstream : SameStream s s')
    (hlimit : 0 ≤ limit) (hname : name = name') :
    ((copyBounded s limit name).2.map fun _ => (copyBounded s limit name).1)
      = (copyBounded s' limit name').2.map fun _ => (copyBounded s' limit name').1 := by
  subst hname
  have hresult : (copyBounded s limit name).2 = (copyBounded s' limit name).2 := by
    rw [copyBounded_result s hlimit, copyBounded_result s' hlimit, hstream.content, hstream.failure]
  cases hcopy : (copyBounded s limit name).2 with
  | error e =>
    rw [← hresult, hcopy]
    rfl
  | ok u =>
    rw [← hresult, hcopy, copyBounded_content hcopy, copyBounded_content (hresult.symm.trans hcopy),
      hstream.content]

/-- **Accidents do not change the raw image**, nor the exception raised instead. -/
theorem resolveRawDisk_reordered {members members' : List Member} (hpath : isArchive diskPath = true)
    (htar : platform.openTar disk = .ok members) (htar' : platform.openTar disk' = .ok members')
    (hsame : SameArchive members members') :
    (resolveRawDisk platform diskPath disk maxExtractBytes).2
      = (resolveRawDisk platform diskPath disk' maxExtractBytes).2 := by
  have hopen : Alike (fun a b => SameMember a.1 b.1 ∧ SameStream a.2.1 b.2.1 ∧ a.2.2 = b.2.2)
      (openMember platform diskPath disk maxExtractBytes)
      (openMember platform diskPath disk' maxExtractBytes) := by
    unfold openMember
    rw [htar, htar', ok_bind, ok_bind]
    refine (alike_soleCandidate hsame).bind fun m m' hm => (alike_checkMember hm).bind fun a b hab => ?_
    exact Alike.ok ⟨hm, hab⟩
  have hnot : ¬ isArchive diskPath = false := fun hfalse =>
    Bool.false_ne_true (hfalse.symm.trans hpath)
  unfold resolveRawDisk
  rw [if_neg hnot, if_neg hnot]
  generalize hx : openMember platform diskPath disk maxExtractBytes = x at hopen ⊢
  generalize openMember platform diskPath disk' maxExtractBytes = y at hopen ⊢
  cases hopen with
  | error e => rfl
  | @ok a b h =>
    obtain ⟨m, s, r⟩ := a
    obtain ⟨m', s', r'⟩ := b
    obtain ⟨_, _, _, hextract⟩ := openMember_eq_ok.mp hx
    exact copied_same h.2.1 hextract.zero_le h.1.name

/-- **Neither what is measured nor what is refused depends on accidents of the archive**: the order of its
members, the chunks its streams are read in, or the members that are no raw images. The same holds of the
kernel image taken out of it. -/
theorem measured_reordered (crc32 : Bytes → Nat) (platform : Platform) (mcopy : Bytes → Nat → String → Py Bytes)
    {diskPath : String} {disk disk' : Bytes} (output : String) (maxExtractBytes : Int) {members members' : List Member}
    (hpath : isArchive diskPath = true) (htar : platform.openTar disk = .ok members)
    (htar' : platform.openTar disk' = .ok members') (hsame : SameArchive members members') :
    gptEventDataOf crc32 platform diskPath disk maxExtractBytes
        = gptEventDataOf crc32 platform diskPath disk' maxExtractBytes ∧
      extractUki crc32 platform mcopy diskPath disk output maxExtractBytes
        = extractUki crc32 platform mcopy diskPath disk' output maxExtractBytes := by
  have hraw : (resolveRawDisk platform diskPath disk maxExtractBytes).2
      = (resolveRawDisk platform diskPath disk' maxExtractBytes).2 :=
    resolveRawDisk_reordered hpath htar htar' hsame
  constructor
  · rw [gptEventDataOf, hraw, gptEventDataOf]
  · rw [extractUki, hraw, extractUki]

end

/-! ## An archive -/

/-- A file in an archive, read in the given chunks. -/
def sampleMember (name : String) (chunks : List Bytes) : Member where
  name := name
  isFile := true
  size := chunks.flatten.length
  source := some ⟨chunks, none⟩

/-- A platform with two archives of one image, once in front of a note and in other chunks. -/
def samplePlatform : Platform where
  openTar := fun disk =>
    if disk = [] then pure [sampleMember "pod/disk.raw" [sampleDisk]]
    else pure [sampleMember "pod/disk.raw" [sampleDisk.take 700, sampleDisk.drop 700],
      sampleMember "README" []]
  tempDir := ["tmp", "tmp0"]
  resolve := id
  create := fun _ => pure ()

/-- The small archive, extracted. -/
theorem extraction_confined_sample :
    ∃ w, (resolveRawDisk samplePlatform "disk.tar.gz" [] 4096).1 = some w ∧
      ["tmp", "tmp0"] <+: w.path ∧ w.content = sampleDisk := by
  obtain ⟨w, hw⟩ : ∃ w, (resolveRawDisk samplePlatform "disk.tar.gz" [] 4096).1 = some w :=
    Option.isSome_iff_exists.mp (by decide +kernel)
  have hraw : (resolveRawDisk samplePlatform "disk.tar.gz" [] 4096).2 = .ok sampleDisk := by
    decide +kernel
  have hconfined := extraction_confined hw
  exact ⟨w, hw, hconfined.1, (hconfined.2.2.2 sampleDisk hraw).symm⟩

/-- The chunks of a file do not matter. -/
theorem sameMember_sampleMember (name : String) {chunks chunks' : List Bytes}
    (hflatten : chunks.flatten = chunks'.flatten) (hchunks : [] ∉ chunks) (hchunks' : [] ∉ chunks') :
    SameMember (sampleMember name chunks) (sampleMember name chunks') := by
  have hcontent : ∀ chunks : List Bytes, [] ∉ chunks → (⟨chunks, none⟩ : Source).content = chunks.flatten := by
    intro chunks h
    have htake : chunks.takeWhile (· != []) = chunks := by
      rw [List.takeWhile_eq_self_iff]
      intro chunk hchunk
      rw [bne_iff_ne]
      rintro rfl
      exact h hchunk
    rw [Source.content, htake]
  refine ⟨rfl, rfl, congrArg List.length hflatten, Option.Rel.some ⟨?_, ?_⟩⟩
  · rw [hcontent chunks hchunks, hcontent chunks' hchunks', hflatten]
  · rw [Source.failure?, Source.failure?, if_neg hchunks, if_neg hchunks']

/-- The small archive, and another one with the same image. -/
theorem measured_reordered_sample :
    gptEventDataOf (fun _ => 7) samplePlatform "disk.tar.gz" [] 4096
      = gptEventDataOf (fun _ => 7) samplePlatform "disk.tar.gz" [0x00] 4096 ∧
    (gptEventDataOf (fun _ => 7) samplePlatform "disk.tar.gz" [0x00] 4096).isOk := by
  have hflatten : [sampleDisk].flatten = [sampleDisk.take 700, sampleDisk.drop 700].flatten := by
    rw [List.flatten_cons, List.flatten_cons, List.flatten_cons, List.flatten_nil, List.append_nil,
      List.append_nil, List.take_append_drop]
  have hsame : SameArchive [sampleMember "pod/disk.raw" [sampleDisk]]
      [sampleMember "pod/disk.raw" [sampleDisk.take 700, sampleDisk.drop 700], sampleMember "README" []] := by
    show SameMembers [sampleMember "pod/disk.raw" [sampleDisk]]
      [sampleMember "pod/disk.raw" [sampleDisk.take 700, sampleDisk.drop 700]]
    refine ⟨_, List.Perm.refl _, List.Forall₂.cons ?_ List.Forall₂.nil⟩
    exact sameMember_sampleMember _ hflatten (by decide +kernel) (by decide +kernel)
  have htar : samplePlatform.openTar [] = .ok _ := rfl
  have htar' : samplePlatform.openTar [0x00] = .ok _ := rfl
  have h := measured_reordered (fun _ => 7) samplePlatform (fun _ _ _ => pure []) "boot.efi" 4096
    (by decide +kernel : isArchive "disk.tar.gz" = true) htar htar' hsame
  exact ⟨h.1, by decide +kernel⟩

end CvmMeasure.Disk
