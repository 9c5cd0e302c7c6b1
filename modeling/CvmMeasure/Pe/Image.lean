import CvmMeasure.Binary.Window
import CvmMeasure.Python.Exceptions
import CvmMeasure.Python.Text

/-! # PE/COFF images

The header and section-table readers of `pe.py`. Offsets are natural numbers, so the source's checks
for a negative offset have no counterpart.

* **`parsePeHeader`**: where the COFF header and the section table lie, `none` for what is no PE;
* **`peSectionNames`**: the names of the section table;
* **`peExtractSection`**: the content of a named section, as stored or as loaded. -/

namespace CvmMeasure.Pe

open Binary Python

/-- SizeOfImage sits at this optional-header offset for both PE32 and PE32+. -/
def optOffSizeOfImage : Nat := 56

/-- The largest zero tail a section may declare. -/
def maxVirtualPaddingBytes : Nat := 64 * 1024 * 1024

/-- Size of a section-table entry. -/
def sectionEntrySize : Nat := 40

/-- `_read_u16`: read a `UINT16` that has to be inside the file. -/
def readU16 (pe : Bytes) (offset : Nat) (what : String) : Py Nat := do
  refuseIf (offset + 2 > pe.length)
    (.valueError
      s!"PE image truncated: {what} at offset {offset} is past the end of a {pe.length}-byte image")
  pure (uintAt pe offset 2)

/-- `_read_u32`: read a `UINT32` that has to be inside the file. -/
def readU32 (pe : Bytes) (offset : Nat) (what : String) : Py Nat := do
  refuseIf (offset + 4 > pe.length)
    (.valueError
      s!"PE image truncated: {what} at offset {offset} is past the end of a {pe.length}-byte image")
  pure (uintAt pe offset 4)

/-- `_section_entry`: offset of one section-table entry, which has to be in the file. -/
def sectionEntry (pe : Bytes) (secTableOff i : Nat) : Py Nat := do
  let so := secTableOff + i * sectionEntrySize
  refuseIf (so + sectionEntrySize > pe.length)
    (.valueError
      s!"PE section table entry {i} at offset {so} runs past the end of a {pe.length}-byte image")
  pure so

/-- What `_parse_pe_header` returns. -/
structure PeHeader where
  coffOffset : Nat
  numSections : Nat
  secTableOff : Nat
  deriving DecidableEq, Repr

def mzSignature : Bytes := asciiBytes "MZ"
def peSignature : Bytes := asciiBytes "PE\x00\x00"

/-- `e_lfanew`: where the PE signature is. -/
def peOffset (pe : Bytes) : Nat := uintAt pe 0x3C 4

/-- The signatures say that this is a PE. -/
def hasPeSignatures (pe : Bytes) : Bool :=
  64 ≤ pe.length && pe.take 2 == mzSignature &&
    peOffset pe + 4 ≤ pe.length && slice pe (peOffset pe) (peOffset pe + 4) == peSignature

/-- The header fields behind the signatures. -/
def readPeHeader (pe : Bytes) : Py PeHeader := do
  let coffOffset := peOffset pe + 4
  let numSections ← readU16 pe (coffOffset + 2) "NumberOfSections"
  let optHdrSize ← readU16 pe (coffOffset + 16) "SizeOfOptionalHeader"
  let secTableOff := coffOffset + 20 + optHdrSize
  refuseIf (secTableOff > pe.length)
    (.valueError
      s!"PE optional header declares {optHdrSize} bytes, putting the section table at offset {secTableOff}, past the end of a {pe.length}-byte image")
  pure { coffOffset, numSections, secTableOff }

/-- `_parse_pe_header`: `none` when the signatures say this is not a PE at all. -/
def parsePeHeader (pe : Bytes) : Py (Option PeHeader) :=
  if hasPeSignatures pe then some <$> readPeHeader pe else pure none

/-- `_size_of_image`: how many bytes the loader maps, `none` when the optional header is too small or
truncated to hold the field. -/
def sizeOfImage (pe : Bytes) (coffOffset : Nat) : Py (Option Nat) := do
  let optHdrSize ← readU16 pe (coffOffset + 16) "SizeOfOptionalHeader"
  let fieldEnd := optOffSizeOfImage + 4
  if optHdrSize < fieldEnd ∨ coffOffset + 20 + fieldEnd > pe.length then pure none
  else some <$> readU32 pe (coffOffset + 20 + optOffSizeOfImage) "SizeOfImage"

/-- `.decode("ascii", errors="replace")`. -/
def decodeAscii (bs : Bytes) : String :=
  String.ofList (bs.map fun b => if b.toNat < 0x80 then Char.ofNat b.toNat else Char.ofNat 0xFFFD)

/-- The name in the section-table entry at `so`: eight bytes, cut at the first NUL. -/
def entryName (pe : Bytes) (so : Nat) : String :=
  decodeAscii ((slice pe so (so + 8)).takeWhile (· != 0x00))

/-- What `pe_extract_section` does at the entry carrying the name: at most SizeOfRawData bytes from the
file, zero-filled out to VirtualSize when that is asked for. -/
def extractEntry (pe : Bytes) (coffOffset so : Nat) (sectionName : String) (useVirtualSize : Bool)
    (virtSize rawSize rawPtr : Nat) : Py (Option Bytes) := do
  if rawSize = 0 ∨ rawPtr = 0 then pure none
  else
    refuseIf (rawPtr + rawSize > pe.length)
      (.valueError
        s!"Section {reprText sectionName} runs past the end of the PE image: {rawPtr} + {rawSize} > {pe.length}")
    let raw := slice pe rawPtr (rawPtr + rawSize)
    if useVirtualSize = false then pure (some raw)
    else if virtSize = 0 then pure none
    else
      let virtAddr ← readU32 pe (so + 12) "VirtualAddress"
      let imageSize ← sizeOfImage pe coffOffset
      refuseIf (imageSize.any fun size => virtAddr + virtSize > size)
        (.valueError
          s!"Section {reprText sectionName} does not fit in the loaded image: VirtualAddress {virtAddr} + VirtualSize {virtSize} exceeds SizeOfImage {imageSize.getD 0}")
      if virtSize ≤ rawSize then pure (some (raw.take virtSize))
      else
        refuseIf (virtSize - rawSize > maxVirtualPaddingBytes)
          (.valueError
            s!"Section {reprText sectionName} declares a {virtSize - rawSize} byte zero tail, over the {maxVirtualPaddingBytes} byte limit")
        pure (some (raw ++ List.replicate (virtSize - rawSize) 0x00))

/-- The loop of `pe_extract_section` over the remaining table indices. -/
def extractLoop (pe : Bytes) (header : PeHeader) (sectionName : String) (useVirtualSize : Bool) :
    List Nat → Py (Option Bytes)
  | [] => pure none
  | i :: is => do
    let so ← sectionEntry pe header.secTableOff i
    let virtSize ← readU32 pe (so + 8) "VirtualSize"
    let rawSize ← readU32 pe (so + 16) "SizeOfRawData"
    let rawPtr ← readU32 pe (so + 20) "PointerToRawData"
    if entryName pe so ≠ sectionName then extractLoop pe header sectionName useVirtualSize is
    else extractEntry pe header.coffOffset so sectionName useVirtualSize virtSize rawSize rawPtr

/-- `pe_extract_section`: a named section's data, `none` for a section that is absent or empty. -/
def peExtractSection (pe : Bytes) (sectionName : String) (useVirtualSize : Bool) :
    Py (Option Bytes) := do
  match ← parsePeHeader pe with
  | none => pure none
  | some header =>
    extractLoop pe header sectionName useVirtualSize (List.range header.numSections)

/-- The loop of `pe_section_names` over the remaining table indices. -/
def namesLoop (pe : Bytes) (header : PeHeader) : List Nat → Py (List String)
  | [] => pure []
  | i :: is => do
    let so ← sectionEntry pe header.secTableOff i
    let names ← namesLoop pe header is
    pure (entryName pe so :: names)

/-- The refusal of what is not a PE. -/
def notAPe : PyError := .valueError "Not a valid PE file (missing MZ or PE signature)"

/-- `pe_section_names`: section names in section-table order, including any duplicates. -/
def peSectionNames (pe : Bytes) : Py (List String) := do
  match ← parsePeHeader pe with
  | none => throw notAPe
  | some header => namesLoop pe header (List.range header.numSections)

end CvmMeasure.Pe
