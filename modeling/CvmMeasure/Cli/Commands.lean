import CvmMeasure.AzureSnp.ComputeAll
import CvmMeasure.AzureSnp.Replay
import CvmMeasure.Cli.Output
import CvmMeasure.Disk.Archive
import CvmMeasure.Tdx.BaselineFile
import CvmMeasure.Tdx.Initdata
import CvmMeasure.Tdx.Registers

/-! # Commands

`cli.py` behind its argument parser: what each command reads, computes, prints and writes. The machine it
runs on is a parameter: the files, the hash functions, the archive reader, `mcopy`, and the directories and
permissions that let a file be written or not.

* **`Host`**, **`Effect`**: what a command reads, and what it leaves behind;
* **`cmdCompute`**, **`cmdAzureCompute`**: the registers from published inputs;
* **`cmdExtractBaseline`**, **`cmdExtractUki`**: the inputs themselves;
* **`cmdReplay`**, **`cmdAzureReplay`**: the registers from an event log;
* **`run`**: all of them. -/

namespace CvmMeasure.Cli

open Binary Python

/-- How a command fails: `parser.error`, a missing file, or an exception. -/
inductive CliError where
  | usage (message : String)
  | notFound (message : String)
  | raised (e : PyError)
  deriving DecidableEq, Repr

/-- What a command leaves, or how it fails. -/
abbrev Command := Except CliError

/-- What a command uses of the machine it runs on. A path that exists is that of a readable file. -/
structure Host where
  files : String → Option Bytes
  platform : Disk.Platform
  /-- `mcopy -i image@@offset ::/EFI/BOOT/BOOTX64.EFI output`: the file it leaves at the output path. -/
  mcopy : Bytes → Nat → String → Py Bytes
  /-- `BOOTX64.EFI` in the temporary directory of `_load_uki`. -/
  tempUki : String
  /-- `path.parent.mkdir(parents=True, exist_ok=True)` and `path.write_text(...)`. -/
  save : String → Bytes → Py Unit
  sha256 : Bytes → Bytes
  sha384 : Bytes → Bytes
  hashNew : String → Bytes → Bytes
  crc32 : Bytes → Nat

/-- What a command prints, and the file it writes. -/
structure Effect where
  stdout : List Char := []
  stderr : List Char := []
  written : Option (String × Bytes) := none

/-- An exception ends the command. -/
def raising {α : Type} : Py α → Command α
  | .ok a => .ok a
  | .error e => .error (.raised e)

/-- An argument that has to be given. -/
def argument {α : Type} (value : Option α) (message : String) : Command α :=
  match value with
  | none => throw (.usage message)
  | some a => pure a

/-- `_require_file`, and the bytes of the file. -/
def requireFile (host : Host) (path flag : String) : Command Bytes :=
  match host.files path with
  | none => throw (.notFound s!"error: {flag} file not found: {path}")
  | some data => pure data

/-! ## TDX -/

/-- `--mode`. -/
inductive Mode where
  | all
  | mrtd
  deriving DecidableEq, Repr

/-- The arguments of `tdx`. -/
structure ComputeArgs where
  firmware : Option String
  uki : Option String
  disk : Option String
  maxExtractBytes : Int
  baseline : Option String
  ram : Option Int
  numaNodes : Int
  maxPerNode : Option Int
  mode : Mode
  rtmr3 : Option String
  initdata : Option String
  outputFormat : OutputFormat

/-- `_resolve_rtmr3`: RTMR[3] from `--initdata` or `--rtmr3`, not both. -/
def resolveRtmr3 (host : Host) (args : ComputeArgs) : Command (Option String) :=
  match args.initdata, args.rtmr3 with
  | some _, some _ => throw (.usage "--initdata and --rtmr3 are mutually exclusive")
  | some path, none => do
    let data ← requireFile host path "--initdata"
    let rtmr3 ← raising (Tdx.initdataRtmr3 host.sha384 host.hashNew data)
    pure (some rtmr3)
  | none, rtmr3 => pure rtmr3

/-- The GPT digest of `--disk`, if it is given. -/
def resolveGptDigest (host : Host) (args : ComputeArgs) : Command (Option String) :=
  match args.disk with
  | none => pure none
  | some path => do
    let disk ← requireFile host path "--disk"
    let digest ←
      raising (Disk.computeGptDigestOf host.crc32 host.platform host.sha384 path disk args.maxExtractBytes)
    pure (some (hex digest))

/-- `_cmd_compute` on `--mode all`, from the firmware on. -/
def computeAllRegisters (host : Host) (args : ComputeArgs) (firmware : Bytes) (ram : Int) :
    Command Tdx.ComputedRegisters := do
  let ukiPath ← argument args.uki
    "--uki is required for full computation (use --mode mrtd to compute MRTD only)"
  let baselinePath ← argument args.baseline
    "--baseline is required for full computation (use --mode mrtd to compute MRTD only)"
  let rtmr3 ← resolveRtmr3 host args
  let uki ← requireFile host ukiPath "--uki"
  let baselineFile ← requireFile host baselinePath "--baseline"
  let baseline ← raising (Tdx.loadFile baselineFile)
  let gptDigest ← resolveGptDigest host args
  raising (Tdx.computeAll host.sha384 firmware uki baseline ram args.numaNodes args.maxPerNode rtmr3 gptDigest)

/-- `_cmd_compute`. -/
def cmdCompute (host : Host) (args : ComputeArgs) : Command Effect := do
  let firmwarePath ← argument args.firmware "--firmware is required"
  let ram ← argument args.ram "--ram is required"
  let firmware ← requireFile host firmwarePath "--firmware"
  match args.mode with
  | .mrtd => do
    let mrtd ← raising (Tdx.computeMrtd host.sha384 firmware (some ram) args.numaNodes args.maxPerNode)
    pure { stdout := outputRegisters [("mrtd", hex mrtd)] args.outputFormat }
  | .all => do
    let regs ← computeAllRegisters host args firmware ram
    pure { stdout := outputRegisters regs.asDict args.outputFormat }

/-- The arguments of `tdx extract-baseline`. -/
structure ExtractBaselineArgs where
  ccel : String
  machineType : String
  firmwareSha384 : Option String
  provider : Option String
  platform : Option String
  output : Option String

/-- The fields of a baseline that the command line may set. -/
def ExtractBaselineArgs.override (args : ExtractBaselineArgs) (b : Tdx.Baseline) : Tdx.Baseline :=
  { b with
    firmwareSha384 := args.firmwareSha384.getD b.firmwareSha384
    provider := args.provider.getD b.provider
    platform := args.platform.getD b.platform }

/-- `_cmd_extract_baseline`. -/
def cmdExtractBaseline (host : Host) (args : ExtractBaselineArgs) : Command Effect := do
  let ccel ← requireFile host args.ccel "--ccel"
  let extracted ← raising (Tdx.extractFromCcel ccel args.machineType)
  let baseline := args.override extracted
  match args.output with
  | some path => do
    raising (host.save path (Tdx.saveFile baseline))
    pure { stderr := s!"Baseline written to {path}\n".toList, written := some (path, Tdx.saveFile baseline) }
  | none => pure { stdout := Tdx.baselineText baseline ++ ['\n'] }

/-- One line of a replay. -/
def replayLine (label : String) (register : Int) (value : Bytes) : List Char :=
  s!"{label}{register}: {hex value}\n".toList

/-- `_cmd_replay`. -/
def cmdReplay (host : Host) (path : String) : Command Effect := do
  let ccel ← requireFile host path "--ccel"
  let log ← raising (Tdx.parseEventLog ccel)
  let rtmrs := Tdx.replayEventLog host.sha384 log Tcg.tpmAlgSha384
  pure { stdout := (List.finRange Tdx.numRtmrs).flatMap fun i => replayLine "rtmr" i.val (rtmrs i) }

/-! ## The vTPM -/

/-- `--initdata` or `--pcr8`, which exclude each other. -/
inductive Pcr8Source where
  | none
  | initdata (path : String)
  | pcr8 (value : String)

/-- The arguments of `azure-snp`. -/
structure AzureArgs where
  disk : Option String
  uki : Option String
  maxExtractBytes : Int
  pcr8 : Pcr8Source
  outputFormat : OutputFormat

/-- The initdata document of the arguments. -/
def readInitdata (host : Host) : Pcr8Source → Command (Option Bytes)
  | .initdata path => do
    let data ← requireFile host path "--initdata"
    pure (some data)
  | _ => pure none

/-- The value of `--pcr8`. -/
def Pcr8Source.hex? : Pcr8Source → Option String
  | .pcr8 value => some value
  | _ => Option.none

/-- `_load_uki`: the UKI of `--uki`, or the one on the disk, by way of a temporary file. -/
def loadUki (host : Host) (args : AzureArgs) (diskPath : String) (disk : Bytes) : Command Bytes :=
  match args.uki with
  | some path => requireFile host path "--uki"
  | none =>
    raising (Disk.extractUki host.crc32 host.platform host.mcopy diskPath disk host.tempUki args.maxExtractBytes)

/-- The registers, and the root hash beside them if the command line pins one. -/
def withRoothash (pcrs : AzureSnp.ComputedPcrs) : Option (List Char) → Dict String String
  | none => pcrs.asDict
  | some value => pcrs.asDict.set "roothash" (String.ofList value)

/-- `_cmd_azure_compute`. -/
def cmdAzureCompute (host : Host) (args : AzureArgs) : Command Effect := do
  let diskPath ← argument args.disk "--disk is required"
  let disk ← requireFile host diskPath "--disk"
  let initdata ← readInitdata host args.pcr8
  let uki ← loadUki host args diskPath disk
  let gpt ← raising (Disk.gptEventDataOf host.crc32 host.platform diskPath disk args.maxExtractBytes)
  let pcrs ← raising (AzureSnp.computeAll host.sha256 host.hashNew uki gpt initdata args.pcr8.hex?)
  let verityRoothash ← raising (AzureSnp.roothash uki)
  pure { stdout := outputRegisters (withRoothash pcrs verityRoothash) args.outputFormat }

/-- `_cmd_azure_replay`. -/
def cmdAzureReplay (host : Host) (path : String) : Command Effect := do
  let eventlog ← requireFile host path "--eventlog"
  let log ← raising (AzureSnp.parseEventLog eventlog)
  let pcrs := AzureSnp.replayEventLog host.sha256 log Tcg.tpmAlgSha256
  pure
    { stdout := (pcrs.keys.insertionSort (· ≤ ·)).flatMap fun i =>
        replayLine "pcr" i ((pcrs.get? i).getD []) }

/-! ## All commands -/

/-- The arguments of `extract-uki`. -/
structure ExtractUkiArgs where
  disk : String
  output : String
  maxExtractBytes : Int

/-- `_cmd_extract_uki`. -/
def cmdExtractUki (host : Host) (args : ExtractUkiArgs) : Command Effect := do
  let disk ← requireFile host args.disk "--disk"
  let uki ←
    raising (Disk.extractUki host.crc32 host.platform host.mcopy args.disk disk args.output args.maxExtractBytes)
  pure
    { stderr := s!"Size: {uki.length} bytes\nSHA-384: {hex (host.sha384 uki)}\n".toList
      written := some (args.output, uki) }

/-- A parsed command line. -/
inductive Invocation where
  | extractUki (args : ExtractUkiArgs)
  | tdx (args : ComputeArgs)
  | tdxExtractBaseline (args : ExtractBaselineArgs)
  | tdxReplay (ccel : String)
  | azureSnp (args : AzureArgs)
  | azureSnpReplay (eventlog : String)

/-- `main`, behind the argument parser. -/
def run (host : Host) : Invocation → Command Effect
  | .extractUki args => cmdExtractUki host args
  | .tdx args => cmdCompute host args
  | .tdxExtractBaseline args => cmdExtractBaseline host args
  | .tdxReplay ccel => cmdReplay host ccel
  | .azureSnp args => cmdAzureCompute host args
  | .azureSnpReplay eventlog => cmdAzureReplay host eventlog

end CvmMeasure.Cli
