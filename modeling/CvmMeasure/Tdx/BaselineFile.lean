import CvmMeasure.Json.RoundTrip
import CvmMeasure.Python.TextFile
import CvmMeasure.Tdx.Extraction

/-! # Baseline files

`baseline.py`, down to the bytes of a file: what `save` writes, and `load` from the bytes on.

* **`saveText`**, **`saveFile`**: the text of a baseline, and its file;
* **`loadText`**, **`loadFile`**: a baseline from a text, and from a file;
* **`loadFile_saveFile`**: a saved baseline is loaded, and nothing in its strings can break the file;
* **`baseline_file_exact`**: the file says what the baseline says. -/

namespace CvmMeasure.Tdx

open Binary Python CvmMeasure.Json

/-! ## Files -/

/-- `json.dumps(baseline.to_dict(), indent=2)`. -/
def baselineText (b : Baseline) : List Char := dumps (save b)

/-- The text `save` writes. -/
def saveText (b : Baseline) : List Char := baselineText b ++ ['\n']

/-- The file `save` writes. -/
def saveFile (b : Baseline) : Bytes := writeText (saveText b)

/-- `load`, from the text on; `JSONDecodeError` is a `ValueError`. Python also reads the escape of a surrogate that
stands alone, which no text of this model holds. -/
def loadText (text : List Char) : Py Baseline :=
  match loads text with
  | none => throw (.valueError "not a JSON document")
  | some data => load data

/-- `load`, from the bytes of the file on; `UnicodeDecodeError` is a `ValueError`. -/
def loadFile (data : Bytes) : Py Baseline :=
  match readText data with
  | none => throw (.valueError "'utf-8' codec can't decode")
  | some text => loadText text

/-! ## A saved baseline -/

/-- A field that is left out if it is empty. -/
theorem plain_optional {key : String} (s : String) {fields : List (String × Value)} (h : Plain (.obj fields))
    (hkey : key ∉ Dict.keys fields) : Plain (.obj ((if s = "" then [] else [(key, .str s)]) ++ fields)) := by
  by_cases hempty : s = ""
  · rw [if_pos hempty]
    exact h
  · rw [if_neg hempty]
    cases h with
    | obj _ hfields hkeys =>
      exact Plain.obj _ (List.forall_mem_cons.mpr ⟨Plain.str s, hfields⟩) (List.nodup_cons.mpr ⟨hkey, hkeys⟩)

/-- An event is written with each key once. -/
theorem plain_event (e : BaselineEvent) : Plain e.toDict := by
  refine Plain.obj _ ?_ ?_
  · simp only [List.forall_mem_cons]
    exact ⟨Plain.int _, Plain.str _, Plain.str _, Plain.str _, fun _ h => absurd h List.not_mem_nil⟩
  · show ["rtmr", "event_type", "label", "digest"].Nodup
    decide

/-- The document of a baseline has no floats, and no key twice. -/
theorem plain_save (b : Baseline) : Plain (save b) := by
  have hevents : Plain (.arr (b.events.map BaselineEvent.toDict)) := by
    apply Plain.arr
    rw [List.forall_mem_map]
    exact fun e _ => plain_event e
  have hfields : Plain (.obj [("machine_type", .str b.machineType), ("firmware_sha384", .str b.firmwareSha384),
      ("secureboot_enabled", .bool b.securebootEnabled), ("events", .arr (b.events.map BaselineEvent.toDict))]) := by
    refine Plain.obj _ ?_ ?_
    · simp only [List.forall_mem_cons]
      exact ⟨Plain.str _, Plain.str _, Plain.bool _, hevents, fun _ h => absurd h List.not_mem_nil⟩
    · show ["machine_type", "firmware_sha384", "secureboot_enabled", "events"].Nodup
      decide
  have hplatform := @plain_optional "platform" b.platform _ hfields
    (show "platform" ∉ ["machine_type", "firmware_sha384", "secureboot_enabled", "events"] by decide)
  have hprovider := @plain_optional "provider" b.provider _ hplatform (by
    by_cases hempty : b.platform = ""
    · rw [if_pos hempty]
      show "provider" ∉ ["machine_type", "firmware_sha384", "secureboot_enabled", "events"]
      decide
    · rw [if_neg hempty]
      show "provider" ∉ ["platform", "machine_type", "firmware_sha384", "secureboot_enabled", "events"]
      decide)
  rw [save, Baseline.toDict, List.append_assoc]
  exact hprovider

/-- The text `save` writes is ASCII without carriage returns. -/
theorem printable_saveText (b : Baseline) : ∀ c ∈ saveText b, Printable c := by
  rw [saveText, List.forall_mem_append]
  exact ⟨dumps_ascii (plain_save b) 0, List.forall_mem_singleton.mpr (by decide)⟩

/-- So every character is one byte. -/
theorem ascii_saveText (b : Baseline) : ∀ c ∈ saveText b, c.toNat < 0x80 := by
  intro c hc
  rcases printable_saveText b c hc with rfl | h
  · decide
  · exact Nat.lt_of_le_of_lt h.2 (by decide)

/-- **A saved baseline is loaded back**, whatever its strings hold. -/
theorem loadFile_saveFile (b : Baseline) : loadFile (saveFile b) = .ok b := by
  have hreturn : '\r' ∉ saveText b := fun hmem => absurd (printable_saveText b _ hmem) (by decide)
  have htext : loads (saveText b) = some (save b) :=
    loads_dumps (plain_save b) (List.all_iff_forall_prop.mp (by decide))
  rw [loadFile, saveFile, readText_writeText (ascii_saveText b) hreturn]
  simp only [loadText, htext]
  exact load_save b

/-- The bytes of a saved baseline are line feeds and printable ASCII. -/
theorem printable_saveFile (b : Baseline) {x : UInt8} (hx : x ∈ saveFile b) : x = 0x0A ∨ 0x20 ≤ x ∧ x ≤ 0x7E := by
  obtain ⟨c, hc, hx⟩ := List.mem_flatMap.mp hx
  have hascii := ascii_saveText b c hc
  rw [utf8Char, if_pos hascii, List.mem_singleton] at hx
  have hbyte : x.toNat = c.toNat := by
    rw [hx, UInt8.toNat_ofNat']
    omega
  rcases printable_saveText b c hc with rfl | ⟨hlow, hhigh⟩
  · exact Or.inl hx
  · refine Or.inr ⟨UInt8.le_iff_toNat_le.mpr ?_, UInt8.le_iff_toNat_le.mpr ?_⟩
    · rw [hbyte]
      exact hlow
    · rw [hbyte]
      exact hhigh

/-- **A baseline file says what the baseline says.** Whatever Unicode text stands in the machine type, the
provider, the labels and the digests, the file that `save` writes is printable ASCII, `load` reads the same
baseline back from it, and no other baseline is saved as that file. -/
theorem baseline_file_exact (b : Baseline) :
    (∀ x ∈ saveFile b, x = 0x0A ∨ 0x20 ≤ x ∧ x ≤ 0x7E) ∧ loadFile (saveFile b) = .ok b ∧
      ∀ b', saveFile b' = saveFile b → b' = b := by
  refine ⟨fun _ hx => printable_saveFile b hx, loadFile_saveFile b, fun b' hsame => ?_⟩
  have hloaded := loadFile_saveFile b'
  rw [hsame] at hloaded
  exact ok_unique hloaded (loadFile_saveFile b)

end CvmMeasure.Tdx
