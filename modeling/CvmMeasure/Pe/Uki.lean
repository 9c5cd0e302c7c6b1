import CvmMeasure.Pe.Authenticode
import CvmMeasure.Python.Unicode

/-! # Unified kernel images

`uki.py` and the command line of `azure_snp/registers.py`: which sections of a UKI systemd-stub
measures, in which order, and which images are refused because that is not decided by the image. -/

namespace CvmMeasure.Pe

open Binary Python

/-- systemd's canonical measurement order for UKI sections. -/
def ukiMeasuredSections : List String :=
  [".linux", ".osrel", ".cmdline", ".initrd", ".ucode", ".splash", ".dtb", ".uname", ".sbat",
    -- .pcrsig sits here in the enum; it signs the result and is not fed back in
    ".pcrpkey", ".profile", ".dtbauto", ".hwids", ".efifw"]

def ukiProfileSection : String := ".profile"

/-- `sorted({name for name in names if ...})`: the repeated measured names, once each. -/
def repeatedNames (names : List String) : List String :=
  ((names.filter fun name => name ∈ ukiMeasuredSections ∧ names.count name > 1).dedup).insertionSort
    (· ≤ ·)

/-- `reject_unmodelled_uki`: refuse a UKI whose measured section sequence is not the canonical one. -/
def rejectUnmodelledUki (uki : Bytes) (register : String) : Py Unit := do
  let names ← peSectionNames uki
  refuseIf (ukiProfileSection ∈ names)
    (.valueError
      s!"UKI carries a {ukiProfileSection} section, so what gets measured into {register} depends on which profile is selected at boot. This tool measures a single section sequence, so refusing rather than modelling one arbitrary profile.")
  let repeated := repeatedNames names
  refuseIf (repeated ≠ [])
    (.valueError ("UKI repeats measured section(s) " ++ ", ".intercalate repeated
      ++ ". systemd-stub measures one of each, and which one is not decidable from the image alone, so refusing to compute "
      ++ register ++ "."))

/-- The loop of `measured_sections` over the remaining names. -/
def measuredLoop (uki : Bytes) : List String → Py (List (String × Bytes))
  | [] => pure []
  | name :: names => do
    let content ← peExtractSection uki name true
    let rest ← measuredLoop uki names
    pure ((content.map fun bs => (name, bs)).toList ++ rest)

/-- `measured_sections`: the sections systemd-stub measures, in order, with their contents. -/
def measuredSections (uki : Bytes) (register : String) : Py (List (String × Bytes)) := do
  rejectUnmodelledUki uki register
  measuredLoop uki ukiMeasuredSections

/-- What the two events of each section hash: the name with its terminator, and the content. -/
def sectionHashInputs (sections : List (String × Bytes)) : List Bytes :=
  sections.flatMap fun s => [asciiBytes (s.1 ++ "\x00"), s.2]

/-- The digests of the sections' events. -/
def sectionDigests (hash : Bytes → Bytes) (sections : List (String × Bytes)) : List Bytes :=
  (sectionHashInputs sections).map hash

/-- `uki_cmdline`: the kernel command line as the EFI stub measures it. -/
def ukiCmdline (uki : Bytes) : Py (List Char) := do
  match ← peExtractSection uki ".cmdline" true with
  | none =>
    throw (.valueError
      "UKI has no .cmdline section, so there is no command line for the EFI stub to measure into PCR 9.")
  | some raw =>
    let stripped := rstrip 0x00 raw
    refuseIf (0x00 ∈ stripped)
      (.valueError
        "UKI .cmdline contains an embedded NUL, which would terminate the command line early for the EFI stub but not for this tool.")
    match utf8Decode? stripped with
    | none =>
      throw (.valueError
        "UKI .cmdline is not valid UTF-8, so the UTF-16 conversion the EFI stub measures cannot be reproduced.")
    | some cmdline => pure cmdline

/-! ## A small image -/

/-- A section-table entry for a section that is stored at its virtual size. -/
def sampleSectionEntry (name : String) (size virtAddr rawPtr : Nat) : Bytes :=
  zeroFill (asciiBytes name) 8 ++ leBytes 4 size ++ leBytes 4 virtAddr ++ leBytes 4 size
    ++ leBytes 4 rawPtr ++ List.replicate 16 0x00

/-- A PE32+ image of four bytes of stub code and a four-byte kernel, without data directories. -/
def sampleUki (text : Bytes) : Bytes :=
  asciiBytes "MZ" ++ List.replicate 58 0x00 ++ leBytes 4 64
    ++ peSignature ++ leBytes 2 0x8664 ++ leBytes 2 2 ++ List.replicate 12 0x00 ++ leBytes 2 112
    ++ leBytes 2 0
    ++ leBytes 2 0x20B ++ List.replicate 54 0x00 ++ leBytes 4 0x3000 ++ leBytes 4 280 ++ leBytes 4 0
    ++ List.replicate 40 0x00 ++ leBytes 4 0
    ++ sampleSectionEntry ".text" 4 0x1000 280 ++ sampleSectionEntry ".linux" 4 0x2000 284
    ++ text ++ [0xB1, 0xB2, 0xB3, 0xB4]

example : (measuredSections (sampleUki [0x01, 0x02, 0x03, 0x04]) "PCR 11").toOption
    = some [(".linux", [0xB1, 0xB2, 0xB3, 0xB4])] := by decide +kernel

/-- The entries of sections stored one behind the other, each on a page of its own. -/
def sampleTable : Nat → Nat → List (String × Bytes) → Bytes
  | _, _, [] => []
  | virtAddr, rawPtr, s :: ss =>
    sampleSectionEntry s.1 s.2.length virtAddr rawPtr
      ++ sampleTable (virtAddr + 0x1000) (rawPtr + s.2.length) ss

/-- A PE32+ image of the given sections, of a page at most each, without data directories. -/
def imageOf (sections : List (String × Bytes)) : Bytes :=
  let headers := 200 + 40 * sections.length
  asciiBytes "MZ" ++ List.replicate 58 0x00 ++ leBytes 4 64
    ++ peSignature ++ leBytes 2 0x8664 ++ leBytes 2 sections.length ++ List.replicate 12 0x00
    ++ leBytes 2 112 ++ leBytes 2 0
    ++ leBytes 2 0x20B ++ List.replicate 54 0x00 ++ leBytes 4 (0x1000 * (sections.length + 1))
    ++ leBytes 4 headers ++ leBytes 4 0 ++ List.replicate 40 0x00 ++ leBytes 4 0
    ++ sampleTable 0x1000 headers sections ++ sections.flatMap Prod.snd

/-- A UKI with a kernel, a command line and an initrd. -/
def sampleBootImage : Bytes :=
  imageOf [(".linux", sampleUki [0x01, 0x02, 0x03, 0x04]),
    (".cmdline", asciiBytes "roothash=ab12 quiet"), (".initrd", [0xC1, 0xC2])]

end CvmMeasure.Pe
