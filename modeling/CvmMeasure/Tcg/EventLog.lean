import CvmMeasure.Tcg.Cursor

/-! # TCG PC Client event logs

The parser of `tcg.py`, shared by the TDX CCEL and the vTPM log. The two formats differ in the
register numbering, supplied as a `RegisterIndexFn`, and in whether the log ends in table fill, the
flag `toleratePadding`. -/

namespace CvmMeasure.Tcg

open Binary Python

/-! ## Algorithms and event types -/

def tpmAlgSha1 : Nat := 0x0004
def tpmAlgSha256 : Nat := 0x000B
def tpmAlgSha384 : Nat := 0x000C
def tpmAlgSha512 : Nat := 0x000D

/-- Digest lengths of the built-in algorithms. -/
def algoDigestSizes : List (Nat × Nat) :=
  [(tpmAlgSha1, 20), (tpmAlgSha256, 32), (tpmAlgSha384, 48), (tpmAlgSha512, 64)]

def maxDigestSize : Nat := 64

def evNoAction : Nat := 0x00000003
def evSeparator : Nat := 0x00000004
def evEventTag : Nat := 0x00000006
def evSCrtmVersion : Nat := 0x00000008
def evPlatformConfigFlags : Nat := 0x0000000A
def evCompactHash : Nat := 0x0000000C
def evIpl : Nat := 0x0000000D

def evEfiVariableDriverConfig : Nat := 0x80000001
def evEfiVariableBoot : Nat := 0x80000002
def evEfiBootServicesApplication : Nat := 0x80000003
def evEfiGptEvent : Nat := 0x80000006
def evEfiAction : Nat := 0x80000007
def evEfiPlatformFirmwareBlob : Nat := 0x80000008
def evEfiPlatformFirmwareBlob2 : Nat := 0x8000000A
def evEfiHandoffTables2 : Nat := 0x8000000B
def evEfiVariableAuthority : Nat := 0x800000E0

def eventTypeNames : List (Nat × String) :=
  [(evNoAction, "EV_NO_ACTION"),
   (evSeparator, "EV_SEPARATOR"),
   (evEventTag, "EV_EVENT_TAG"),
   (evSCrtmVersion, "EV_S_CRTM_VERSION"),
   (evPlatformConfigFlags, "EV_PLATFORM_CONFIG_FLAGS"),
   (evCompactHash, "EV_COMPACT_HASH"),
   (evIpl, "EV_IPL"),
   (evEfiVariableDriverConfig, "EV_EFI_VARIABLE_DRIVER_CONFIG"),
   (evEfiVariableBoot, "EV_EFI_VARIABLE_BOOT"),
   (evEfiBootServicesApplication, "EV_EFI_BOOT_SERVICES_APPLICATION"),
   (evEfiGptEvent, "EV_EFI_GPT_EVENT"),
   (evEfiAction, "EV_EFI_ACTION"),
   (evEfiPlatformFirmwareBlob, "EV_EFI_PLATFORM_FIRMWARE_BLOB"),
   (evEfiPlatformFirmwareBlob2, "EV_EFI_PLATFORM_FIRMWARE_BLOB2"),
   (evEfiHandoffTables2, "EV_EFI_HANDOFF_TABLES2"),
   (evEfiVariableAuthority, "EV_EFI_VARIABLE_AUTHORITY")]

/-! ## Events -/

/-- One event from a log. `digests` is the dictionary from algorithm id to hash, in insertion order;
the parser never inserts an id twice. -/
structure EventLogEntry where
  index : Nat
  registerIndex : Int
  eventType : Nat
  digests : List (Nat × Bytes)
  eventData : Bytes
  deriving DecidableEq, Repr

/-- `event_type_name`. -/
def EventLogEntry.eventTypeName (e : EventLogEntry) : String :=
  (eventTypeNames.lookup e.eventType).getD s!"UNKNOWN(0x{hexUpper 8 e.eventType})"

/-- `event.digests.get(algo_id)`. -/
def EventLogEntry.digest? (e : EventLogEntry) (algoId : Nat) : Option Bytes := e.digests.lookup algoId

def specIdSignature : Bytes := asciiBytes "Spec ID Event03\x00"
def logTerminator : Nat := 0xFFFFFFFF

/-- `TCG_PCR_EVENT2` header: RegisterIndex, EventType, DigestCount. -/
def event2HeaderSize : Nat := 12
/-- `TCG_PCClientPCREvent` header: RegisterIndex, EventType, 20-byte digest, EventSize. -/
def specIdHeaderSize : Nat := 32
/-- SpecIdEvent fields ahead of NumberOfAlgorithms. -/
def specIdAlgoCountOffset : Nat := 24

/-- The fill bytes of an event-log table, in the order they are tried. -/
def paddingBytes : List UInt8 := [0xFF, 0x00]

/-- `_padding_start`: where the buffer's trailing fill begins, and the byte it repeats. -/
def paddingStart (data : Bytes) : Nat × Option UInt8 :=
  match paddingBytes.find? fun pad => (rstrip pad data).length != data.length with
  | some pad => ((rstrip pad data).length, some pad)
  | none => (data.length, none)

/-- `tail[4:]` if `tail` starts with a terminator, else `tail`. -/
def skipTerminator (tail : Bytes) : Bytes :=
  if tail.take 4 = leBytes 4 logTerminator then tail.drop 4 else tail

/-- `_require_only_padding`: refuse a log with unexplained bytes after its last event. -/
def requireOnlyPadding (cursor : Cursor) : CursorM Unit := do
  let rest ← cursor.tail
  let tail := skipTerminator rest
  if tail = [] ∨ paddingBytes.any (fun pad => tail.count pad == tail.length) then pure ()
  else do
    let offset ← get
    throw (.valueError
      s!"Event log has {tail.length} unparsed byte(s) after the last event at offset {offset}, which are neither a terminator nor table padding")

/-- Maps the register index a log records onto the platform's numbering, raising for a register the
platform does not have. The source also passes the cursor, which is only asked for its offset. -/
abbrev RegisterIndexFn := Nat → CursorM Int

/-! ## The SpecIdEvent -/

/-- The algorithms of a SpecIdEvent are read `n` at a time. The source's `seen` set holds exactly the
ids of `digestSizes`. -/
def digestSizesLoop (payload : Cursor) : Nat → List (Nat × Nat) → CursorM (List (Nat × Nat))
  | 0, digestSizes => pure digestSizes
  | n + 1, digestSizes => do
    let algoId ← payload.u16 "AlgorithmId"
    let digestSize ← payload.u16 "DigestSize"
    refuseIf (algoId ∈ digestSizes.map Prod.fst)
      (.valueError s!"SpecIdEvent lists algorithm 0x{hexUpper 4 algoId} twice")
    let known := algoDigestSizes.lookup algoId
    refuseIf (known.isSome ∧ some digestSize ≠ known)
      (.valueError
        s!"SpecIdEvent declares {digestSize} bytes for algorithm 0x{hexUpper 4 algoId}, which has a {known.getD 0}-byte digest")
    refuseIf (¬ (0 < digestSize ∧ digestSize ≤ maxDigestSize))
      (.valueError
        s!"SpecIdEvent declares an unusable digest size {digestSize} for algorithm 0x{hexUpper 4 algoId}")
    digestSizesLoop payload n (digestSizes ++ [(algoId, digestSize)])

/-- The fields of a SpecIdEvent behind its signature check. -/
def readDigestSizes (payload : Cursor) : CursorM (List (Nat × Nat)) := do
  let _ ← payload.take specIdAlgoCountOffset "SpecIdEvent header" false
  let numAlgos ← payload.u32 "NumberOfAlgorithms"
  let _ ← payload.boundedCount numAlgos 4 "algorithm(s)"
  refuseIf (numAlgos = 0) (.valueError "SpecIdEvent declares no digest algorithms")
  let digestSizes ← digestSizesLoop payload numAlgos []
  let vendorInfoSize ← payload.u8 "VendorInfoSize"
  let _ ← payload.take vendorInfoSize "VendorInfo" false
  let offset ← get
  refuseIf (payload.remaining offset ≠ 0)
    (.valueError
      s!"SpecIdEvent has {payload.remaining offset} byte(s) beyond its declared fields")
  pure digestSizes

/-- `parse_digest_sizes`: the algorithm digest sizes the log's events use. -/
def parseDigestSizes (eventData : Bytes) : Py (List (Nat × Nat)) := do
  let start := eventData.take specIdSignature.length
  refuseIf (start ≠ specIdSignature)
    (.valueError
      s!"First event is not a SpecIdEvent: expected signature {reprBytes specIdSignature}, got {reprBytes start}")
  runFrom (readDigestSizes (Cursor.ofData eventData "SpecIdEvent")) 0

/-- `_parse_spec_id_event`: the first event, a `TCG_PCClientPCREvent` with a 20-byte legacy digest. -/
def parseSpecIdEvent (cursor : Cursor) (index : Nat) (toRegisterIndex : RegisterIndexFn) :
    CursorM (EventLogEntry × List (Nat × Nat)) := do
  let rawIndex ← cursor.u32 "RegisterIndex"
  let eventType ← cursor.u32 "EventType"
  let legacyDigest ← cursor.take 20 "legacy digest" true
  let eventSize ← cursor.u32 "EventSize"
  let eventData ← cursor.take eventSize "SpecIdEvent payload" false
  let registerIndex ← toRegisterIndex rawIndex
  let entry : EventLogEntry :=
    { index, registerIndex, eventType, digests := [(0x0000, legacyDigest)], eventData }
  let digestSizes ← liftPy (parseDigestSizes eventData)
  pure (entry, digestSizes)

/-! ## The later events -/

/-- `algo_sizes.get(algo_id) or ALGO_DIGEST_SIZES.get(algo_id)`: a declared size, unless it is zero,
else the built-in one. -/
def digestSizeOf (algoSizes : List (Nat × Nat)) (algoId : Nat) : Option Nat :=
  match algoSizes.lookup algoId with
  | none | some 0 => algoDigestSizes.lookup algoId
  | some size => some size

/-- The digests of one event are read `n` at a time. -/
def digestsLoop (cursor : Cursor) (algoSizes : List (Nat × Nat)) :
    Nat → List (Nat × Bytes) → CursorM (List (Nat × Bytes))
  | 0, digests => pure digests
  | n + 1, digests => do
    let algoOffset ← get
    let algoId ← cursor.u16 "AlgorithmId"
    match digestSizeOf algoSizes algoId with
    | none =>
      throw (.valueError s!"Unknown algorithm 0x{hexUpper 4 algoId} at offset {algoOffset}")
    | some dsz => do
      refuseIf (algoId ∈ digests.map Prod.fst)
        (.valueError s!"Event at offset {algoOffset} repeats algorithm 0x{hexUpper 4 algoId}")
      let digest ← cursor.take dsz s!"0x{hexUpper 4 algoId} digest" true
      digestsLoop cursor algoSizes n (digests ++ [(algoId, digest)])

/-- `_parse_event2`: a `TCG_PCR_EVENT2`, with one digest for each of several algorithms. -/
def parseEvent2 (cursor : Cursor) (index : Nat) (algoSizes : List (Nat × Nat))
    (toRegisterIndex : RegisterIndexFn) : CursorM EventLogEntry := do
  let rawIndex ← cursor.u32 "RegisterIndex"
  let eventType ← cursor.u32 "EventType"
  let digestCount ← cursor.u32 "DigestCount"
  -- each entry is at least an algorithm id plus a one-byte digest
  let _ ← cursor.boundedCount digestCount 3 "digest(s)"
  let digests ← digestsLoop cursor algoSizes digestCount []
  let eventSize ← cursor.u32 "EventSize"
  let eventData ← cursor.take eventSize "event data" false
  let registerIndex ← toRegisterIndex rawIndex
  let offset ← get
  refuseIf (eventType ≠ evNoAction ∧ registerIndex < 0)
    (.valueError
      s!"Measured event at offset {offset} records register index {rawIndex}, which is not a measurement register")
  pure { index, registerIndex, eventType, digests, eventData }

/-- The `while` loop of `parse_events`, at most `fuel` times round. -/
def parseEventsLoop (cursor : Cursor) (algoSizes : List (Nat × Nat))
    (toRegisterIndex : RegisterIndexFn) :
    Nat → Nat → List EventLogEntry → CursorM (List EventLogEntry)
  | 0, _, _ => throw .outOfFuel
  | fuel + 1, index, events => do
    let offset ← get
    if offset < cursor.limit ∧ event2HeaderSize ≤ cursor.remaining offset then do
      let rawIndex ← cursor.peekU32 "RegisterIndex"
      if rawIndex = logTerminator then pure events
      else do
        let event ← parseEvent2 cursor index algoSizes toRegisterIndex
        parseEventsLoop cursor algoSizes toRegisterIndex fuel (index + 1) (events ++ [event])
    else pure events

/-- `parse_events` on its cursor. Every event takes at least 16 bytes, so the buffer's length bounds
the iterations of the loop. -/
def readEvents (cursor : Cursor) (toRegisterIndex : RegisterIndexFn) :
    CursorM (List (Nat × Nat) × List EventLogEntry) := do
  let (entry, digestSizes) ← parseSpecIdEvent cursor 0 toRegisterIndex
  let events ← parseEventsLoop cursor digestSizes toRegisterIndex (cursor.data.length + 1) 1 [entry]
  requireOnlyPadding cursor
  pure (digestSizes, events)

/-- The cursor `parse_events` reads with: the limit is where tolerated fill begins. -/
def eventsCursor (data : Bytes) (what : String) (toleratePadding : Bool) : Cursor :=
  let (bodyEnd, fill) := if toleratePadding then paddingStart data else (data.length, none)
  { data, what, limit := bodyEnd, fill }

/-- `parse_events`: the digest sizes and events of a raw event log. -/
def parseEvents (data : Bytes) (what : String) (toRegisterIndex : RegisterIndexFn)
    (toleratePadding : Bool) : Py (List (Nat × Nat) × List EventLogEntry) := do
  refuseIf (data.length < specIdHeaderSize)
    (.valueError s!"{what} too short ({data.length} bytes)")
  runFrom (readEvents (eventsCursor data what toleratePadding) toRegisterIndex) 0

/-! ## Parsed logs -/

/-- `ParsedEventLog`, which `ccel.py` and `eventlog.py` each define with these fields. -/
structure ParsedEventLog where
  digestSizes : List (Nat × Nat)
  events : List EventLogEntry
  deriving DecidableEq, Repr

/-- The events that were measured into a register. -/
def ParsedEventLog.measurableEvents (log : ParsedEventLog) : List EventLogEntry :=
  log.events.filter fun e => e.eventType != evNoAction

/-- The events measured into one register: `events_for_rtmr` and `events_for_pcr`. -/
def ParsedEventLog.eventsFor (log : ParsedEventLog) (register : Int) : List EventLogEntry :=
  log.events.filter fun e => e.registerIndex == register && e.eventType != evNoAction

end CvmMeasure.Tcg
