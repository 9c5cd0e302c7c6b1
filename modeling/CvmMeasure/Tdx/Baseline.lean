import CvmMeasure.Json.Value
import CvmMeasure.Python.Unicode
import CvmMeasure.Tdx.Ccel

/-! # Baselines

`baseline.py`: the digests of a reference CCEL that cannot be computed offline, with a label each.

* **`extractFromCcel`**: a baseline from a CCEL;
* **`save`**, **`load`**: a baseline as a JSON document and back. A document may be any JSON, with keys the tool
  does not know. -/

namespace CvmMeasure.Tdx

open Binary Python Tcg CvmMeasure.Json

/-- `BaselineEvent`: a single non-computable event digest extracted from a reference CCEL. -/
structure BaselineEvent where
  rtmr : Int
  eventType : String
  label : String
  digest : String
  deriving DecidableEq, Repr

/-- `Baseline`: non-computable event digests for a specific machine type. -/
structure Baseline where
  machineType : String
  firmwareSha384 : String
  securebootEnabled : Bool
  provider : String
  platform : String
  events : List BaselineEvent
  deriving DecidableEq, Repr

/-- `rtmr_events`. -/
def Baseline.rtmrEvents (b : Baseline) (rtmr : Int) : List BaselineEvent :=
  b.events.filter fun e => e.rtmr == rtmr

/-- `_infer_provider`: infer the cloud provider from machine type naming conventions. -/
def inferProvider (machineType : String) : String :=
  let mt := machineType.toLower
  if mt.startsWith "standard_" || mt.startsWith "standard " then "azure"
  else if mt.contains '.' then "aws"
  else "gcp"

/-! ## Saving -/

/-- `asdict` of an event. -/
def BaselineEvent.toDict (e : BaselineEvent) : Value :=
  .obj [("rtmr", .int e.rtmr), ("event_type", .str e.eventType), ("label", .str e.label),
    ("digest", .str e.digest)]

/-- `to_dict`: an empty provider or platform is left out. -/
def Baseline.toDict (b : Baseline) : Value :=
  .obj ((if b.provider = "" then [] else [("provider", .str b.provider)])
    ++ (if b.platform = "" then [] else [("platform", .str b.platform)])
    ++ [("machine_type", .str b.machineType), ("firmware_sha384", .str b.firmwareSha384),
      ("secureboot_enabled", .bool b.securebootEnabled),
      ("events", .arr (b.events.map BaselineEvent.toDict))])

/-- `save`, up to the JSON text. -/
def save (b : Baseline) : Value := b.toDict

/-! ## Loading -/

/-- A field of another type. Python keeps any value here, and only fails or goes wrong where the value
is used; the model refuses it at once. -/
def wrongType (expected : String) : PyError := .typeError s!"expected {expected}"

/-- A value read as a string, -/
def strValue : Value → Py String
  | .str value => pure value
  | _ => throw (wrongType "a string")

/-- as an integer, -/
def intValue : Value → Py Int
  | .int value => pure value
  | _ => throw (wrongType "an integer")

/-- or as a boolean. -/
def boolValue : Value → Py Bool
  | .bool value => pure value
  | _ => throw (wrongType "a boolean")

/-- An argument of `BaselineEvent(**...)`. -/
def eventArgument (fields : List (String × Value)) (key : String) : Py Value :=
  match fields.lookup key with
  | none => throw (.typeError s!"BaselineEvent() missing a required positional argument: '{key}'")
  | some value => pure value

/-- One event of a document; keys the tool does not know are dropped. An item without keys raises
`AttributeError` in Python. -/
def loadEvent : Value → Py BaselineEvent
  | .obj fields => do
    let rtmr ← intValue (← eventArgument fields "rtmr")
    let eventType ← strValue (← eventArgument fields "event_type")
    let label ← strValue (← eventArgument fields "label")
    let digest ← strValue (← eventArgument fields "digest")
    pure { rtmr, eventType, label, digest }
  | _ => throw (.typeError "object has no attribute 'items'")

/-- The events of a document, in order. -/
def loadEvents : List Value → Py (List BaselineEvent)
  | [] => pure []
  | item :: items => do
    let event ← loadEvent item
    let events ← loadEvents items
    pure (event :: events)

/-- What `for e in data.get("events", [])` goes over: the keys of an object and the characters of a
string, too. -/
def eventItems (fields : List (String × Value)) : Py (List Value) :=
  match fields.lookup "events" with
  | none => pure []
  | some (.arr items) => pure items
  | some (.obj fields) => pure (fields.map fun kv => .str kv.1)
  | some (.str s) => pure (s.toList.map fun c => .str (String.ofList [c]))
  | some _ => throw (.typeError "object is not iterable")

/-- The `events` of a document. -/
def eventsOf (fields : List (String × Value)) : Py (List BaselineEvent) := do
  let items ← eventItems fields
  loadEvents items

/-- `data.get(key, default)`, read. -/
def fieldD {α : Type} (read : Value → Py α) (fields : List (String × Value)) (key : String) (default : α) :
    Py α :=
  match fields.lookup key with
  | none => pure default
  | some value => read value

/-- `data["machine_type"]`. -/
def machineTypeField (fields : List (String × Value)) : Py String :=
  match fields.lookup "machine_type" with
  | none => throw (.keyError "machine_type")
  | some value => strValue value

/-- `load`, from the JSON document on. What is proved of loaded baselines is about documents whose fields have
the types of the dataclass: Python loads the others, too, and keeps the values as they are. -/
def load : Value → Py Baseline
  | .obj fields => do
    let events ← eventsOf fields
    let machineType ← machineTypeField fields
    let firmwareSha384 ← fieldD strValue fields "firmware_sha384" ""
    let securebootEnabled ← fieldD boolValue fields "secureboot_enabled" false
    let provider ← fieldD strValue fields "provider" ""
    let platform ← fieldD strValue fields "platform" ""
    pure { machineType, firmwareSha384, securebootEnabled, provider, platform, events }
  | _ => throw (.typeError "object has no attribute 'get'")

/-! ## Extraction -/

/-- `_COMPUTABLE`: event types whose digest is computed from inputs, by register. -/
def computable : List (Int × Nat) :=
  [(0, evEfiPlatformFirmwareBlob2), (0, evSeparator), (1, evEfiAction), (1, evEfiGptEvent),
    (1, evSeparator), (1, evEfiBootServicesApplication)]

/-- `_LABEL_OVERRIDES`. -/
def labelOverrides : List ((Int × Nat) × String) :=
  [((0, evEfiHandoffTables2), "TdxTable"), ((0, evPlatformConfigFlags), "ACPI_DATA")]

/-- `_uefi_var_name`: the UEFI variable name in a VARIABLE event's raw data. -/
def uefiVarName (eventData : Bytes) : Option String :=
  if eventData.length < 32 then none
  else
    let nameLen := uintAt eventData 16 8
    some (String.ofList (utf16LeDecode (slice eventData 32 (32 + nameLen * 2))))

/-- `_secureboot_value`: the SecureBoot flag; anything but a single byte is treated as disabled. -/
def securebootValue (eventData : Bytes) : Bool :=
  if eventData.length < 32 then false
  else
    let nameLen := uintAt eventData 16 8
    let dataLen := uintAt eventData 24 8
    let offset := 32 + nameLen * 2
    if dataLen ≠ 1 ∨ offset + 1 > eventData.length then false
    else eventData[offset]? != some 0x00

/-- The event is the SecureBoot variable: `event_type == EV_EFI_VARIABLE_DRIVER_CONFIG` and its name. -/
def isSecureBootVariable (event : EventLogEntry) : Bool :=
  event.eventType == evEfiVariableDriverConfig && uefiVarName event.eventData == some "SecureBoot"

/-- `_is_computable`: the event's digest can be computed from inputs. -/
def isComputable (rtmr : Int) (event : EventLogEntry) : Bool :=
  rtmr == 2 || (rtmr, event.eventType) ∈ computable || (rtmr == 0 && isSecureBootVariable event)

/-- `_label_for_event`. -/
def labelForEvent (rtmr : Int) (event : EventLogEntry) : String :=
  match labelOverrides.lookup (rtmr, event.eventType) with
  | some label => label
  | none =>
    if event.eventType = evEfiVariableDriverConfig ∨ event.eventType = evEfiVariableBoot then
      match uefiVarName event.eventData with
      | some name => if name = "" then event.eventTypeName else name
      | none => event.eventTypeName
    else event.eventTypeName

/-- The baseline event a log event leaves behind, if any. -/
def baselineEvent? (event : EventLogEntry) : Option BaselineEvent :=
  let rtmr := event.registerIndex
  match event.digest? tpmAlgSha384 with
  | none => none
  | some d =>
    if isComputable rtmr event then none
    else some
      { rtmr, eventType := event.eventTypeName, label := labelForEvent rtmr event, digest := hex d }

/-- One round of the loop of `extract_from_ccel`. -/
def extractStep (baseline : Baseline) (event : EventLogEntry) : Baseline :=
  let flagged : Baseline :=
    if event.registerIndex = 0 ∧ isSecureBootVariable event then
      { baseline with securebootEnabled := securebootValue event.eventData }
    else baseline
  { flagged with events := flagged.events ++ (baselineEvent? event).toList }

/-- The baseline `extract_from_ccel` starts from. -/
def emptyBaseline (machineType : String) : Baseline :=
  { machineType, firmwareSha384 := "", securebootEnabled := false
    provider := inferProvider machineType, platform := "tdx", events := [] }

/-- `extract_from_ccel`: extract a baseline from a CCEL binary. -/
def extractFromCcel (ccelData : Bytes) (machineType : String) : Py Baseline := do
  let log ← parseEventLog ccelData
  pure (log.measurableEvents.foldl extractStep (emptyBaseline machineType))

end CvmMeasure.Tdx
