import CvmMeasure.Pe.Image
import Mathlib.Data.List.Sort

/-! # The Authenticode digest

`pe_authenticode_digest` of `pe.py`. It feeds the hash a sequence of spans of the file; the model
returns that sequence, so that what is hashed can be talked about without the hash.

* **`authenticodeSpans`**: the spans, in order;
* **`authenticodeStream`**: the bytes they cover, which is what the hash sees;
* **`peAuthenticodeDigest`**: the digest, for an arbitrary hash. -/

namespace CvmMeasure.Pe

open Binary Python

/-- Offsets inside the optional header that depend on its magic. -/
structure OptionalLayout where
  checksumOff : Nat
  numRvaOff : Nat
  ddOffset : Nat
  deriving DecidableEq, Repr

/-- The layout of the optional header at `optOffset`: PE32+ or PE32. -/
def optionalLayout (optOffset magic : Nat) : Py OptionalLayout :=
  if magic = 0x20B then
    pure { checksumOff := optOffset + 64, numRvaOff := optOffset + 108, ddOffset := optOffset + 112 }
  else if magic = 0x10B then
    pure { checksumOff := optOffset + 64, numRvaOff := optOffset + 92, ddOffset := optOffset + 96 }
  else throw (.valueError s!"Unknown PE optional header magic: 0x{hexUpper 4 magic}")

/-- The Certificate Table directory entry and the size it declares, if the optional header has one. -/
def certificateEntry (pe : Bytes) (ddOffset numRvaAndSizes optEnd : Nat) :
    Py (Option Nat × Nat) := do
  let entryOff := ddOffset + 4 * 8
  if numRvaAndSizes > 4 ∧ entryOff + 8 ≤ optEnd then
    let size ← readU32 pe (entryOff + 4) "certificate table size"
    pure (some entryOff, size)
  else pure (none, 0)

/-- The loop over the section table: the non-empty raw ranges, in table order. -/
def rawSectionsLoop (pe : Bytes) (secTableOff : Nat) : List Nat → Py (List (Nat × Nat))
  | [] => pure []
  | i :: is => do
    let so ← sectionEntry pe secTableOff i
    let rawSize ← readU32 pe (so + 16) "SizeOfRawData"
    let rawPtr ← readU32 pe (so + 20) "PointerToRawData"
    if rawSize = 0 ∨ rawPtr = 0 then rawSectionsLoop pe secTableOff is
    else
      refuseIf (rawPtr + rawSize > pe.length)
        (.valueError
          s!"Section {reprText (entryName pe so)} runs past the end of the PE image: {rawPtr} + {rawSize} > {pe.length}")
      let sections ← rawSectionsLoop pe secTableOff is
      pure ((rawPtr, rawSize) :: sections)

/-- Python compares pairs lexicographically. -/
def pairLe (a b : Nat × Nat) : Prop := a.1 < b.1 ∨ (a.1 = b.1 ∧ a.2 ≤ b.2)

instance : DecidableRel pairLe := fun a b => by unfold pairLe; infer_instance

/-- `sections.sort()`. -/
def sortSections (sections : List (Nat × Nat)) : List (Nat × Nat) := sections.insertionSort pairLe

/-- Where the header span behind the checksum and the certificate entry begins. -/
def afterCertEntry (afterChecksum : Nat) : Option Nat → Nat
  | some entryOff => entryOff + 8
  | none => afterChecksum

/-- The header spans: everything but the checksum and the certificate entry. -/
def headerSpans (checksumOff : Nat) (certEntryOff : Option Nat) (sizeOfHeaders : Nat) :
    List (Nat × Nat) :=
  let afterChecksum := checksumOff + 4
  match certEntryOff with
  | some entryOff =>
    [(0, checksumOff), (afterChecksum, entryOff), (entryOff + 8, sizeOfHeaders)]
  | none => [(0, checksumOff), (afterChecksum, sizeOfHeaders)]

/-- The file tail between the sections and the certificate table, if there is any. -/
def tailSpans (sumOfBytes : Nat) (extraEnd : Int) : List (Nat × Nat) :=
  if extraEnd > sumOfBytes then [(sumOfBytes, extraEnd.toNat)] else []

/-- What the digest reads out of the headers before it hashes anything. -/
structure AuthenticodeHeaders where
  layout : OptionalLayout
  sizeOfHeaders : Nat
  certEntryOff : Option Nat
  certTableSize : Nat
  sections : List (Nat × Nat)
  deriving DecidableEq, Repr

/-- The header part of `pe_authenticode_digest`; `sections` are sorted. -/
def readAuthenticodeHeaders (pe : Bytes) : Py AuthenticodeHeaders := do
  match ← parsePeHeader pe with
  | none => throw notAPe
  | some header =>
    let optOffset := header.coffOffset + 20
    let optHdrSize ← readU16 pe (header.coffOffset + 16) "SizeOfOptionalHeader"
    let magic ← readU16 pe optOffset "optional header magic"
    let layout ← optionalLayout optOffset magic
    let sizeOfHeaders ← readU32 pe (optOffset + 60) "SizeOfHeaders"
    let numRvaAndSizes ← readU32 pe layout.numRvaOff "NumberOfRvaAndSizes"
    let (certEntryOff, certTableSize) ←
      certificateEntry pe layout.ddOffset numRvaAndSizes (optOffset + optHdrSize)
    refuseIf (sizeOfHeaders > pe.length)
      (.valueError
        s!"PE declares SizeOfHeaders {sizeOfHeaders}, past the end of a {pe.length}-byte image")
    let sections ← rawSectionsLoop pe header.secTableOff (List.range header.numSections)
    pure { layout, sizeOfHeaders, certEntryOff, certTableSize, sections := sortSections sections }

/-- The spans `pe_authenticode_digest` hashes, in order. -/
def authenticodeSpans (pe : Bytes) : Py (List (Nat × Nat)) := do
  let h ← readAuthenticodeHeaders pe
  let headerEnd := afterCertEntry (h.layout.checksumOff + 4) h.certEntryOff
  refuseIf (h.sizeOfHeaders < headerEnd)
    (.valueError
      s!"PE declares SizeOfHeaders {h.sizeOfHeaders}, inside the {headerEnd}-byte header prefix the digest already covers")
  let sumOfBytes := h.sizeOfHeaders + (h.sections.map Prod.snd).sum
  let extraEnd : Int := pe.length - h.certTableSize
  refuseIf (h.certTableSize ≠ 0 ∧ extraEnd < sumOfBytes)
    (.valueError
      s!"PE declares a {h.certTableSize}-byte certificate table, which overlaps the {sumOfBytes} bytes of headers and sections that come before it in a {pe.length}-byte image")
  pure (headerSpans h.layout.checksumOff h.certEntryOff h.sizeOfHeaders
    ++ h.sections.map (fun s => (s.1, s.1 + s.2)) ++ tailSpans sumOfBytes extraEnd)

/-- The bytes a sequence of spans covers. -/
def coveredBytes (pe : Bytes) (spans : List (Nat × Nat)) : Bytes :=
  spans.flatMap fun s => slice pe s.1 s.2

/-- The byte stream `pe_authenticode_digest` hashes. -/
def authenticodeStream (pe : Bytes) : Py Bytes := do
  let spans ← authenticodeSpans pe
  pure (coveredBytes pe spans)

/-- `pe_authenticode_digest`, for the hash `hash` of the algorithm asked for. -/
def peAuthenticodeDigest (hash : Bytes → Bytes) (pe : Bytes) : Py Bytes := do
  let stream ← authenticodeStream pe
  pure (hash stream)

end CvmMeasure.Pe
