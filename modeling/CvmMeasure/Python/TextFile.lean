import CvmMeasure.Python.Unicode

/-! # Text files

`Path.write_text` and `Path.read_text`: UTF-8, and on reading every kind of line break as a line feed.

* **`writeText`**, **`readText`**: a text as the bytes of a file and back;
* `readText_writeText`: ASCII without carriage returns comes back. -/

namespace CvmMeasure.Python

open Binary

/-- The UTF-8 bytes of a character. -/
def utf8Char (c : Char) : Bytes :=
  let n := c.toNat
  if n < 0x80 then [UInt8.ofNat n]
  else if n < 0x800 then [UInt8.ofNat (0xC0 + n / 0x40), UInt8.ofNat (0x80 + n % 0x40)]
  else if n < 0x10000 then
    [UInt8.ofNat (0xE0 + n / 0x1000), UInt8.ofNat (0x80 + n / 0x40 % 0x40), UInt8.ofNat (0x80 + n % 0x40)]
  else
    [UInt8.ofNat (0xF0 + n / 0x40000), UInt8.ofNat (0x80 + n / 0x1000 % 0x40),
      UInt8.ofNat (0x80 + n / 0x40 % 0x40), UInt8.ofNat (0x80 + n % 0x40)]

/-- `path.write_text(text)`, as the bytes of the file. -/
def writeText (text : List Char) : Bytes := text.flatMap utf8Char

/-- The loop of `universalNewlines`; behind a carriage return a line feed belongs to the break. -/
def newlinesLoop : Bool → List Char → List Char
  | _, [] => []
  | afterReturn, c :: cs =>
    if c = '\n' ∧ afterReturn then newlinesLoop false cs
    else if c = '\r' then '\n' :: newlinesLoop true cs
    else c :: newlinesLoop false cs

/-- Text mode: every line break is read as a line feed. -/
def universalNewlines (text : List Char) : List Char := newlinesLoop false text

/-- `path.read_text()`, `none` where it raises `UnicodeDecodeError`. -/
def readText (bs : Bytes) : Option (List Char) := (utf8Decode? bs).map universalNewlines

example : readText (writeText "é€😀\r\n\r".toList) = some "é€😀\n\n".toList := by decide +kernel

/-- ASCII text decodes as it was written. -/
theorem utf8Decode_ascii {text : List Char} (h : ∀ c ∈ text, c.toNat < 0x80) :
    utf8Decode? (writeText text) = some text := by
  induction text with
  | nil => rfl
  | cons c text ih =>
    obtain ⟨hc, htext⟩ := List.forall_mem_cons.mp h
    have hbyte : (UInt8.ofNat c.toNat).toNat = c.toNat := by
      rw [UInt8.toNat_ofNat']
      omega
    have hchar : utf8Char c = [UInt8.ofNat c.toNat] := if_pos hc
    have ih := ih htext
    rw [writeText] at ih ⊢
    rw [List.flatMap_cons, hchar, List.cons_append, List.nil_append, utf8Decode?.eq_def]
    simp only [hbyte, if_pos hc, ih, Option.map_some, Char.ofNat_toNat]

/-- Without carriage returns there is nothing to translate. -/
theorem universalNewlines_of_not_mem {text : List Char} (h : '\r' ∉ text) :
    universalNewlines text = text := by
  unfold universalNewlines
  induction text with
  | nil => rfl
  | cons c text ih =>
    rw [List.mem_cons, not_or] at h
    rw [newlinesLoop, if_neg (by simp), if_neg (Ne.symm h.1), ih h.2]

/-- ASCII without carriage returns is read back. -/
theorem readText_writeText {text : List Char} (hascii : ∀ c ∈ text, c.toNat < 0x80) (hreturn : '\r' ∉ text) :
    readText (writeText text) = some text := by
  rw [readText, utf8Decode_ascii hascii, Option.map_some, universalNewlines_of_not_mem hreturn]

end CvmMeasure.Python
