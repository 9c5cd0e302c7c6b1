import CvmMeasure.Disk.Gpt
import Mathlib.Data.List.Sort
import Mathlib.Data.String.Basic

/-! # Disk images in archives

`disk.py`: a pod VM image comes raw or as the one `.raw` member of a `.tar.gz`, which the tool copies out
by hand. Reading the archive itself, the temporary directory, how the file system resolves a path and whether
it lets a file be created there are parameters; an archive may lie about its members, and its streams may fail
halfway. The temporary file system is taken to have room for what is written.

* **`copyBounded`**: what is written, and how the copy ends;
* **`resolveRawDisk`**: the raw image, and the file left behind;
* `copyBounded_written`, `copyBounded_eq_ok`: a copy never passes its limit, and is whole if it returns;
* **`Extractable`**, **`RawImage`**: the members that pass the checks, and the image a disk stands for;
* **`resolveRawDisk_eq_ok`**: which disks are resolved, and to what. -/

namespace CvmMeasure.Disk

open Binary Python

/-! ## Copying -/

/-- What `read` delivers one chunk at a time, and the exception it raises behind them, if any. -/
structure Source where
  chunks : List Bytes
  failure : Option PyError

/-- What a stream delivers: an empty chunk is its end. -/
def Source.content (source : Source) : Bytes := (source.chunks.takeWhile (· != [])).flatten

/-- The refusal to go on copying. -/
def overLimit (limit : Int) (name : String) : PyError :=
  .valueError
    s!"Refusing to extract {reprText name}: exceeds the {limit} byte extraction limit (raise max_extract_bytes if this image is legitimately larger)"

/-- The loop of `_copy_bounded`: what it writes, and how it ends. -/
def copyLoop (limit : Int) (name : String) (failure : Option PyError) : Int → List Bytes → Bytes × Py Unit
  | _, [] =>
    match failure with
    | none => ([], pure ())
    | some e => ([], throw e)
  | remaining, chunk :: chunks =>
    if chunk = [] then ([], pure ())
    else if remaining - chunk.length < 0 then ([], throw (overLimit limit name))
    else
      let (written, result) := copyLoop limit name failure (remaining - chunk.length) chunks
      (chunk ++ written, result)

/-- `_copy_bounded`: copy source to dest, refusing to write more than `limit` bytes. -/
def copyBounded (source : Source) (limit : Int) (name : String) : Bytes × Py Unit :=
  copyLoop limit name source.failure limit source.chunks

/-! ## Archives -/

/-- A member of an archive, as its header declares it, and its stream: `extractfile`. -/
structure Member where
  name : String
  isFile : Bool
  size : Nat
  source : Option Source

/-- What the tool uses of its platform: `tarfile.open(...).getmembers()`, the temporary directory, and
`Path.resolve`, on the components of a path. Creating a file, its missing directories included, may fail: the
name may be too long for the file system, or one of a directory. -/
structure Platform where
  openTar : Bytes → Py (List Member)
  tempDir : List String
  resolve : List String → List String
  /-- `path.parent.mkdir(parents=True, exist_ok=True)` and `open(path, "wb")`. -/
  create : List String → Py Unit

/-- A file the tool wrote. -/
structure Written where
  path : List String
  content : Bytes

/-- The parts of a path; empty parts and single dots do not count. -/
def pathParts (path : String) : List String :=
  ((path.toList.splitOn '/').map String.ofList).filter fun part => part != "" && part != "."

/-- `dest / name`: an absolute name replaces the directory. -/
def joinPath (dest : List String) (name : String) : List String :=
  if name.startsWith "/" then pathParts name else dest ++ pathParts name

/-- `"".join(path.suffixes).lower()`: the last part of a path from its first dot on, where leading dots
and a last part that ends with a dot do not count. -/
def suffixes (path : String) : List Char :=
  let name := ((pathParts path).getLast?.getD "").toList
  if name.getLast? = some '.' then []
  else ((name.dropWhile (· == '.')).dropWhile (· != '.')).map Char.toLower

/-- The path is one of an archive. -/
def isArchive (path : String) : Bool :=
  ".tar.gz".toList.isSuffixOf (suffixes path) || ".tgz".toList.isSuffixOf (suffixes path)

/-- `m.name.endswith(".raw")`. -/
def Member.isRaw (m : Member) : Bool := ".raw".toList.isSuffixOf m.name.toList

/-- The names of some members, sorted. -/
def sortedNames (members : List Member) : List String :=
  (members.map Member.name).insertionSort (· ≤ ·)

/-- The one candidate of an archive. -/
def soleCandidate (diskPath : String) (members : List Member) : Py Member :=
  let candidates := members.filter Member.isRaw
  match candidates with
  | [] => throw (.valueError s!"No member ending in '.raw' found in {diskPath}")
  | [member] => pure member
  | _ =>
    let names := ", ".intercalate (sortedNames candidates)
    throw (.valueError
      s!"{diskPath} contains {candidates.length} '.raw' members ({names}); expected exactly one")

/-- The checks of a candidate: its stream, and the path of the file that is created for it. -/
def checkMember (platform : Platform) (diskPath : String) (maxExtractBytes : Int) (member : Member) :
    Py (Source × List String) := do
  refuseIf (member.isFile = false)
    (.valueError s!"Refusing to extract {reprText member.name}: not a regular file")
  refuseIf ((member.size : Int) > maxExtractBytes)
    (.valueError
      s!"Refusing to extract {reprText member.name}: declares {member.size} bytes, over the {maxExtractBytes} byte extraction limit")
  let resolved := platform.resolve (joinPath platform.tempDir member.name)
  refuseIf (¬ platform.tempDir <+: resolved)
    (.valueError s!"Refusing to extract {reprText member.name}: path traversal detected")
  match member.source with
  | none => throw (.valueError s!"Cannot read {reprText member.name} from {diskPath}")
  | some source => do
    platform.create resolved
    pure (source, resolved)

/-- The candidate of an archive, opened, with the file for it. -/
def openMember (platform : Platform) (diskPath : String) (disk : Bytes) (maxExtractBytes : Int) :
    Py (Member × Source × List String) := do
  let members ← platform.openTar disk
  let member ← soleCandidate diskPath members
  let opened ← checkMember platform diskPath maxExtractBytes member
  pure (member, opened)

/-- `_resolve_raw_disk`: the bytes of the raw image, and the file that was written on the way; whoever
called removes it with the temporary directory. -/
def resolveRawDisk (platform : Platform) (diskPath : String) (disk : Bytes) (maxExtractBytes : Int) :
    Option Written × Py Bytes :=
  if isArchive diskPath = false then (none, pure disk)
  else
    match openMember platform diskPath disk maxExtractBytes with
    | .error e => (none, throw e)
    | .ok (member, source, resolved) =>
      let (written, result) := copyBounded source maxExtractBytes member.name
      (some ⟨resolved, written⟩, result.map fun _ => written)

section

variable (crc32 : Bytes → Nat) (platform : Platform)

/-- `gpt_event_data`, from the path and the file there. -/
def gptEventDataOf (diskPath : String) (disk : Bytes) (maxExtractBytes : Int) : Py Bytes := do
  let raw ← (resolveRawDisk platform diskPath disk maxExtractBytes).2
  gptEventData crc32 raw

/-- `compute_gpt_digest`, from the path and the file there. -/
def computeGptDigestOf (sha384 : Bytes → Bytes) (diskPath : String) (disk : Bytes) (maxExtractBytes : Int) :
    Py Bytes := do
  let data ← gptEventDataOf crc32 platform diskPath disk maxExtractBytes
  pure (sha384 data)

/-- `extract_uki`, up to its digest: the offset of the ESP, and the file that `mcopy` leaves at the output path
from there. -/
def extractUki (mcopy : Bytes → Nat → String → Py Bytes) (diskPath : String) (disk : Bytes) (output : String)
    (maxExtractBytes : Int) : Py Bytes := do
  let raw ← (resolveRawDisk platform diskPath disk maxExtractBytes).2
  let offset ← findEspOffset crc32 raw
  mcopy raw offset output

end

/-! ## What is copied -/

/-- A copy writes the beginning of the stream, within the limit. -/
theorem copyLoop_written (limit : Int) (name : String) (failure : Option PyError) (remaining : Int)
    (chunks : List Bytes) :
    (copyLoop limit name failure remaining chunks).1 <+: (chunks.takeWhile (· != [])).flatten ∧
      ((copyLoop limit name failure remaining chunks).1.length : Int) ≤ max remaining 0 := by
  induction chunks generalizing remaining with
  | nil =>
    cases failure
    · exact ⟨List.nil_prefix, Int.le_max_right _ _⟩
    · exact ⟨List.nil_prefix, Int.le_max_right _ _⟩
  | cons chunk chunks ih =>
    rw [copyLoop]
    by_cases hchunk : chunk = []
    · rw [if_pos hchunk]
      exact ⟨List.nil_prefix, Int.le_max_right _ _⟩
    · have htake : (chunk :: chunks).takeWhile (· != []) = chunk :: chunks.takeWhile (· != []) :=
        List.takeWhile_cons_of_pos (bne_iff_ne.mpr hchunk)
      rw [if_neg hchunk, htake, List.flatten_cons]
      by_cases hremaining : remaining - chunk.length < 0
      · rw [if_pos hremaining]
        exact ⟨List.nil_prefix, Int.le_max_right _ _⟩
      · obtain ⟨hbegins, hlen⟩ := ih (remaining - chunk.length)
        rw [if_neg hremaining]
        refine ⟨(List.prefix_append_right_inj chunk).mpr hbegins, ?_⟩
        simp only [List.length_append, Nat.cast_add]
        omega

/-- How a copy ends, at a limit that is not negative: the limit comes before what ends the stream. -/
theorem copyLoop_result (limit : Int) (name : String) (failure : Option PyError) (remaining : Nat)
    (chunks : List Bytes) :
    (copyLoop limit name failure remaining chunks).2 =
      if remaining < (chunks.takeWhile (· != [])).flatten.length then throw (overLimit limit name)
      else if [] ∈ chunks then pure ()
      else match failure with
        | none => pure ()
        | some e => throw e := by
  induction chunks generalizing remaining with
  | nil =>
    cases failure with
    | none => simp [copyLoop]
    | some e => simp [copyLoop]
  | cons chunk chunks ih =>
    rw [copyLoop]
    by_cases hchunk : chunk = []
    · subst hchunk
      simp
    · have htake : (chunk :: chunks).takeWhile (· != []) = chunk :: chunks.takeWhile (· != []) :=
        List.takeWhile_cons_of_pos (bne_iff_ne.mpr hchunk)
      have hmem : [] ∈ chunk :: chunks ↔ [] ∈ chunks := by
        rw [List.mem_cons, or_iff_right (Ne.symm hchunk)]
      rw [if_neg hchunk, htake, List.flatten_cons, List.length_append]
      simp only [hmem]
      by_cases hremaining : remaining < chunk.length
      · rw [if_pos (by omega), if_pos (by omega)]
      · have hcast : (remaining : Int) - chunk.length = ((remaining - chunk.length : Nat) : Int) := by
          omega
        have hlt : remaining < chunk.length + (chunks.takeWhile (· != [])).flatten.length ↔
            remaining - chunk.length < (chunks.takeWhile (· != [])).flatten.length := by
          omega
        rw [if_neg (by omega), hcast]
        simp only [hlt]
        exact ih (remaining - chunk.length)

/-- A copy that returns has written the whole stream. -/
theorem copyLoop_written_of_ok {limit : Int} {name : String} {failure : Option PyError} {remaining : Int}
    {chunks : List Bytes} (h : (copyLoop limit name failure remaining chunks).2 = .ok ()) :
    (copyLoop limit name failure remaining chunks).1 = (chunks.takeWhile (· != [])).flatten := by
  induction chunks generalizing remaining with
  | nil =>
    cases failure with
    | none => rfl
    | some e => cases h
  | cons chunk chunks ih =>
    rw [copyLoop] at h ⊢
    by_cases hchunk : chunk = []
    · subst hchunk
      rfl
    · have htake : (chunk :: chunks).takeWhile (· != []) = chunk :: chunks.takeWhile (· != []) :=
        List.takeWhile_cons_of_pos (bne_iff_ne.mpr hchunk)
      rw [if_neg hchunk] at h ⊢
      rw [htake, List.flatten_cons]
      by_cases hremaining : remaining - chunk.length < 0
      · rw [if_pos hremaining] at h
        cases h
      · rw [if_neg hremaining] at h ⊢
        exact congrArg (chunk ++ ·) (ih h)

section

variable {source : Source} {limit : Int} {name : String}

/-- **A copy writes the beginning of the stream, within the limit.** -/
theorem copyBounded_written (source : Source) (hlimit : 0 ≤ limit) (name : String) :
    (copyBounded source limit name).1 <+: source.content ∧
      ((copyBounded source limit name).1.length : Int) ≤ limit := by
  obtain ⟨hbegins, hlen⟩ := copyLoop_written limit name source.failure limit source.chunks
  rw [Int.max_eq_left hlimit] at hlen
  exact ⟨hbegins, hlen⟩

/-- The exception behind a stream, unless it ends before. -/
def Source.failure? (source : Source) : Option PyError := if [] ∈ source.chunks then none else source.failure

/-- **How a copy ends depends on what the stream delivers**, never on its chunks. -/
theorem copyBounded_result (source : Source) (hlimit : 0 ≤ limit) (name : String) :
    (copyBounded source limit name).2 =
      if limit < source.content.length then throw (overLimit limit name)
      else match source.failure? with
        | none => pure ()
        | some e => throw e := by
  obtain ⟨n, rfl⟩ := Int.eq_ofNat_of_zero_le hlimit
  rw [copyBounded, copyLoop_result]
  simp only [Int.ofNat_lt]
  congr 1
  unfold Source.failure?
  by_cases hend : [] ∈ source.chunks
  · rw [if_pos hend, if_pos hend]
  · rw [if_neg hend, if_neg hend]

/-- A copy returns if the stream fits the limit and does not fail, -/
theorem copyBounded_eq_ok (hlimit : 0 ≤ limit) :
    (copyBounded source limit name).2 = .ok () ↔
      (source.content.length : Int) ≤ limit ∧ source.failure? = none := by
  rw [copyBounded_result source hlimit name]
  by_cases hlen : limit < source.content.length
  · rw [if_pos hlen]
    exact iff_of_false (fun h => by cases h) fun h => absurd h.1 (not_le.mpr hlen)
  · rw [if_neg hlen, and_iff_right (not_lt.mp hlen)]
    cases source.failure? with
    | none => exact iff_of_true rfl rfl
    | some e => exact iff_of_false (fun h => by cases h) fun h => by cases h

/-- and then it has written the whole stream. -/
theorem copyBounded_content (h : (copyBounded source limit name).2 = .ok ()) :
    (copyBounded source limit name).1 = source.content :=
  copyLoop_written_of_ok h

end

/-! ## Which member -/

section

variable {platform : Platform} {diskPath : String} {disk : Bytes} {maxExtractBytes : Int}

/-- The candidate is the only `.raw` member. -/
theorem soleCandidate_eq_ok {members : List Member} {member : Member} :
    soleCandidate diskPath members = .ok member ↔ members.filter Member.isRaw = [member] := by
  unfold soleCandidate
  simp only
  split
  · rename_i hnil
    rw [hnil]
    exact iff_of_false (fun h => by cases h) fun h => by cases h
  · rename_i found hfound
    rw [hfound]
    constructor
    · rintro ⟨⟩
      rfl
    · rintro ⟨⟩
      rfl
  · rename_i hnone hone
    refine iff_of_false (fun h => by cases h) fun h => hone member h

/-- Everything the tool asks of a candidate. -/
structure Extractable (platform : Platform) (maxExtractBytes : Int) (member : Member) (source : Source)
    (resolved : List String) : Prop where
  regular : member.isFile = true
  declared : (member.size : Int) ≤ maxExtractBytes
  path : resolved = platform.resolve (joinPath platform.tempDir member.name)
  confined : platform.tempDir <+: resolved
  stream : member.source = some source
  created : platform.create resolved = .ok ()

/-- The checks are passed by the members that can be extracted. -/
theorem checkMember_eq_ok {member : Member} {source : Source} {resolved : List String} :
    checkMember platform diskPath maxExtractBytes member = .ok (source, resolved) ↔
      Extractable platform maxExtractBytes member source resolved := by
  simp only [checkMember, bind_eq_ok, refuseIf_eq_ok, Bool.not_eq_false, not_lt, not_not]
  constructor
  · rintro ⟨_, hregular, _, hdeclared, _, hconfined, h⟩
    cases hsource : member.source with
    | none =>
      rw [hsource] at h
      cases h
    | some source' =>
      rw [hsource] at h
      simp only [bind_eq_ok, pure_eq_ok, Prod.mk.injEq] at h
      obtain ⟨_, hcreated, rfl, rfl⟩ := h
      exact ⟨hregular, hdeclared, rfl, hconfined, hsource, hcreated⟩
  · rintro ⟨hregular, hdeclared, rfl, hconfined, hstream, hcreated⟩
    refine ⟨(), hregular, (), hdeclared, (), hconfined, ?_⟩
    rw [hstream]
    dsimp only
    rw [hcreated, ok_bind]
    rfl

/-- No member can be extracted under a negative limit. -/
theorem Extractable.zero_le {member : Member} {source : Source} {resolved : List String}
    (h : Extractable platform maxExtractBytes member source resolved) : 0 ≤ maxExtractBytes :=
  (Int.natCast_nonneg member.size).trans h.declared

/-- The member that is opened is the only candidate, if it can be extracted. -/
theorem openMember_eq_ok {member : Member} {source : Source} {resolved : List String} :
    openMember platform diskPath disk maxExtractBytes = .ok (member, source, resolved) ↔
      ∃ members, platform.openTar disk = .ok members ∧ members.filter Member.isRaw = [member] ∧
        Extractable platform maxExtractBytes member source resolved := by
  simp only [openMember, bind_eq_ok, soleCandidate_eq_ok]
  constructor
  · rintro ⟨members, hmembers, m, hm, ⟨source', resolved'⟩, hcheck, ⟨⟩⟩
    exact ⟨members, hmembers, hm, checkMember_eq_ok.mp hcheck⟩
  · rintro ⟨members, hmembers, hm, hextract⟩
    exact ⟨members, hmembers, member, hm, (source, resolved), checkMember_eq_ok.mpr hextract, rfl⟩

/-- The raw image a disk stands for: itself, or the content of the one `.raw` member of an archive. -/
inductive RawImage (platform : Platform) (diskPath : String) (disk : Bytes) (maxExtractBytes : Int) :
    Bytes → Prop
  | plain (hpath : isArchive diskPath = false) :
      RawImage platform diskPath disk maxExtractBytes disk
  | archived {members : List Member} {member : Member} {source : Source} {resolved : List String}
      (hpath : isArchive diskPath = true) (htar : platform.openTar disk = .ok members)
      (hsole : members.filter Member.isRaw = [member])
      (hextract : Extractable platform maxExtractBytes member source resolved)
      (hfits : (source.content.length : Int) ≤ maxExtractBytes) (hends : source.failure? = none) :
      RawImage platform diskPath disk maxExtractBytes source.content

/-- Once a member is opened, the raw image is its content, if all of it could be copied. -/
theorem resolveRawDisk_of_opened {member : Member} {source : Source} {resolved : List String}
    (hpath : isArchive diskPath = true)
    (hopen : openMember platform diskPath disk maxExtractBytes = .ok (member, source, resolved)) {raw : Bytes} :
    (resolveRawDisk platform diskPath disk maxExtractBytes).2 = .ok raw ↔
      ((source.content.length : Int) ≤ maxExtractBytes ∧ source.failure? = none) ∧ source.content = raw := by
  obtain ⟨_, _, _, hextract⟩ := openMember_eq_ok.mp hopen
  have hcopy : (copyBounded source maxExtractBytes member.name).2 = .ok () ↔
      (source.content.length : Int) ≤ maxExtractBytes ∧ source.failure? = none :=
    copyBounded_eq_ok hextract.zero_le
  rw [← hcopy, resolveRawDisk, if_neg (by rw [hpath]; decide), hopen]
  simp only
  constructor
  · intro h
    cases hresult : (copyBounded source maxExtractBytes member.name).2 with
    | error e =>
      rw [hresult] at h
      cases h
    | ok u =>
      rw [hresult] at h
      cases h
      exact ⟨rfl, (copyBounded_content hresult).symm⟩
  · rintro ⟨hresult, rfl⟩
    rw [hresult, copyBounded_content hresult]
    rfl

/-- **The raw image is the one the disk stands for**: a raw disk as it is, and of an archive the one `.raw`
member, whole, if it passes every check and its stream ends within the limit. -/
theorem resolveRawDisk_eq_ok {raw : Bytes} :
    (resolveRawDisk platform diskPath disk maxExtractBytes).2 = .ok raw ↔
      RawImage platform diskPath disk maxExtractBytes raw := by
  cases hpath : isArchive diskPath with
  | false =>
    rw [resolveRawDisk, if_pos hpath]
    constructor
    · rintro ⟨⟩
      exact RawImage.plain hpath
    · intro h
      cases h with
      | plain => rfl
      | archived harchive => exact absurd (hpath.symm.trans harchive) Bool.false_ne_true
  | true =>
    constructor
    · intro h
      cases hopen : openMember platform diskPath disk maxExtractBytes with
      | error e =>
        rw [resolveRawDisk, if_neg (by rw [hpath]; decide), hopen] at h
        cases h
      | ok opened =>
        obtain ⟨member, source, resolved⟩ := opened
        obtain ⟨⟨hfits, hends⟩, rfl⟩ := (resolveRawDisk_of_opened hpath hopen).mp h
        obtain ⟨members, htar, hsole, hextract⟩ := openMember_eq_ok.mp hopen
        exact RawImage.archived hpath htar hsole hextract hfits hends
    · intro h
      cases h with
      | plain hplain => exact absurd (hplain.symm.trans hpath) Bool.false_ne_true
      | archived _ htar hsole hextract hfits hends =>
        have hopen : openMember platform diskPath disk maxExtractBytes = .ok _ :=
          openMember_eq_ok.mpr ⟨_, htar, hsole, hextract⟩
        exact (resolveRawDisk_of_opened hpath hopen).mpr ⟨⟨hfits, hends⟩, rfl⟩

end

end CvmMeasure.Disk
