import CvmMeasure.Cli.Commands
import CvmMeasure.Disk.ArchiveContent
import CvmMeasure.Tdx.Rtmr0Agreement

/-! # From an event log to registers

The commands are run one after the other, with files in between: `tdx extract-baseline` writes the baseline
that `tdx` reads, and `extract-uki` the UKI that `azure-snp` reads, on the same machine or on another one. What
reaches the registers is the baseline that was extracted, whatever way its text took, and the UKI that
`azure-snp` would have found on the disk itself.

* `ReadsInputs`: what `tdx` reads of its machine, the baseline apart;
* **`cmdCompute_eq_ok`**: what `tdx` prints, by its inputs;
* **`compute_from_extracted`**: on an extracted baseline, written to a file or redirected into one;
* **`azure_from_extracted`**: on an extracted UKI. -/

namespace CvmMeasure.Cli

open Binary Python

/-! ## Statements of a command -/

section

variable {α β : Type}

/-- Two statements succeed if each does, the second on what the first returned. -/
@[simp] theorem command_bind_eq_ok {x : Command α} {f : α → Command β} {b : β} :
    (x >>= f) = .ok b ↔ ∃ a, x = .ok a ∧ f a = .ok b := by
  cases x with
  | error e => exact iff_of_false (fun h => by cases h) fun ⟨_, h, _⟩ => by cases h
  | ok a => exact ⟨fun h => ⟨a, rfl, h⟩, fun ⟨a', h, hf⟩ => by cases h; exact hf⟩

/-- A statement that succeeded is followed by the next one. -/
@[simp] theorem command_ok_bind (a : α) (f : α → Command β) : ((.ok a : Command α) >>= f) = f a := rfl

/-- A step of the library succeeds if it returns. -/
@[simp] theorem raising_eq_ok {x : Py α} {a : α} : raising x = .ok a ↔ x = .ok a := by
  cases x with
  | error e => exact iff_of_false (fun h => by cases h) fun h => by cases h
  | ok b => exact ⟨fun h => by cases h; rfl, fun h => by cases h; rfl⟩

/-- An argument that has to be given is the one given. -/
@[simp] theorem argument_eq_ok {value : Option α} {message : String} {a : α} :
    argument value message = .ok a ↔ value = some a := by
  cases value with
  | none => exact iff_of_false (fun h => by cases h) fun h => by cases h
  | some b => exact ⟨fun h => by cases h; rfl, fun h => by cases h; rfl⟩

/-- A required file is the one at its path. -/
@[simp] theorem requireFile_eq_ok {host : Host} {path flag : String} {data : Bytes} :
    requireFile host path flag = .ok data ↔ host.files path = some data := by
  unfold requireFile
  cases host.files path with
  | none => exact iff_of_false (fun h => by cases h) fun h => by cases h
  | some b => exact ⟨fun h => by cases h; rfl, fun h => by cases h; rfl⟩

/-- `pure` succeeds with its value. -/
@[simp] theorem command_pure_eq_ok {a b : α} : (pure a : Command α) = .ok b ↔ a = b :=
  ⟨fun h => by cases h; rfl, fun h => by cases h; rfl⟩

end

/-! ## Computing -/

/-- The inputs of a full computation, the baseline apart. -/
structure Inputs where
  firmware : Bytes
  uki : Bytes
  ram : Int
  rtmr3 : Option String
  gptDigest : Option String

/-- What `tdx` reads of its machine. -/
structure ReadsInputs (host : Host) (args : ComputeArgs) (inputs : Inputs) : Prop where
  firmware : ∃ path, args.firmware = some path ∧ host.files path = some inputs.firmware
  ram : args.ram = some inputs.ram
  uki : ∃ path, args.uki = some path ∧ host.files path = some inputs.uki
  rtmr3 : resolveRtmr3 host args = .ok inputs.rtmr3
  gptDigest : resolveGptDigest host args = .ok inputs.gptDigest

/-- The registers of the inputs and a baseline. -/
def Inputs.registers (inputs : Inputs) (host : Host) (args : ComputeArgs) (baseline : Tdx.Baseline) :
    Py Tdx.ComputedRegisters :=
  Tdx.computeAll host.sha384 inputs.firmware inputs.uki baseline inputs.ram args.numaNodes args.maxPerNode
    inputs.rtmr3 inputs.gptDigest

/-- **What `tdx` prints**: the registers of the files it reads. -/
theorem cmdCompute_eq_ok {host : Host} {args : ComputeArgs} {effect : Effect} (hmode : args.mode = .all) :
    cmdCompute host args = .ok effect ↔
      ∃ inputs path file baseline regs, ReadsInputs host args inputs ∧ args.baseline = some path ∧
        host.files path = some file ∧ Tdx.loadFile file = .ok baseline ∧
        inputs.registers host args baseline = .ok regs ∧
        effect = { stdout := outputRegisters regs.asDict args.outputFormat } := by
  simp only [cmdCompute, hmode, computeAllRegisters, command_bind_eq_ok, argument_eq_ok, requireFile_eq_ok,
    raising_eq_ok, command_pure_eq_ok]
  constructor
  · rintro ⟨firmwarePath, hfirmware, ram, hram, firmware, hfirmwareFile, regs, ⟨ukiPath, huki, path, hpath,
      rtmr3, hrtmr3, uki, hukiFile, file, hfile, baseline, hbaseline, gptDigest, hgpt, hregs⟩, rfl⟩
    exact ⟨⟨firmware, uki, ram, rtmr3, gptDigest⟩, path, file, baseline, regs,
      ⟨⟨firmwarePath, hfirmware, hfirmwareFile⟩, hram, ⟨ukiPath, huki, hukiFile⟩, hrtmr3, hgpt⟩, hpath,
      hfile, hbaseline, hregs, rfl⟩
  · rintro ⟨⟨firmware, uki, ram, rtmr3, gptDigest⟩, path, file, baseline, regs,
      ⟨⟨firmwarePath, hfirmware, hfirmwareFile⟩, hram, ⟨ukiPath, huki, hukiFile⟩, hrtmr3, hgpt⟩, hpath,
      hfile, hbaseline, hregs, rfl⟩
    exact ⟨firmwarePath, hfirmware, ram, hram, firmware, hfirmwareFile, regs, ⟨ukiPath, huki, path, hpath,
      rtmr3, hrtmr3, uki, hukiFile, file, hfile, baseline, hbaseline, gptDigest, hgpt, hregs⟩, rfl⟩

/-! ## Extracting -/

/-- The file a baseline ends up in: the one that was written, or standard output redirected. -/
def Effect.artifact (effect : Effect) : Bytes :=
  match effect.written with
  | some (_, data) => data
  | none => writeText effect.stdout

/-- What `tdx extract-baseline` leaves behind. -/
theorem cmdExtractBaseline_eq_ok {host : Host} {args : ExtractBaselineArgs} {effect : Effect}
    (h : cmdExtractBaseline host args = .ok effect) :
    ∃ ccel b, host.files args.ccel = some ccel ∧ Tdx.extractFromCcel ccel args.machineType = .ok b ∧
      effect.artifact = Tdx.saveFile (args.override b) := by
  simp only [cmdExtractBaseline, command_bind_eq_ok, requireFile_eq_ok, raising_eq_ok] at h
  obtain ⟨ccel, hccel, b, hb, h⟩ := h
  refine ⟨ccel, b, hccel, hb, ?_⟩
  cases hout : args.output with
  | none =>
    rw [hout] at h
    cases h
    rfl
  | some path =>
    rw [hout] at h
    simp only [command_bind_eq_ok, command_pure_eq_ok] at h
    obtain ⟨_, -, rfl⟩ := h
    rfl

/-- **An extracted baseline reaches the registers unchanged.** Written to a file or redirected into one, and
read on any machine, it gives exactly the registers of the baseline that was extracted; a computation on it
fails only where one on that baseline does. -/
theorem compute_from_extracted {host host' : Host} {args : ExtractBaselineArgs} {args' : ComputeArgs}
    {extracted : Effect} {path : String} (hextract : cmdExtractBaseline host args = .ok extracted)
    (hfile : host'.files path = some extracted.artifact) (hbaseline : args'.baseline = some path)
    (hmode : args'.mode = .all) :
    ∃ ccel b, host.files args.ccel = some ccel ∧ Tdx.extractFromCcel ccel args.machineType = .ok b ∧
      ∀ effect, cmdCompute host' args' = .ok effect ↔
        ∃ inputs regs, ReadsInputs host' args' inputs ∧
          inputs.registers host' args' (args.override b) = .ok regs ∧
          effect = { stdout := outputRegisters regs.asDict args'.outputFormat } := by
  obtain ⟨ccel, b, hccel, hb, hartifact⟩ := cmdExtractBaseline_eq_ok hextract
  refine ⟨ccel, b, hccel, hb, fun effect => ?_⟩
  have hload : Tdx.loadFile extracted.artifact = .ok (args.override b) := by
    rw [hartifact]
    exact Tdx.loadFile_saveFile _
  rw [cmdCompute_eq_ok hmode]
  constructor
  · rintro ⟨inputs, path', file, baseline, regs, hinputs, hpath, hfile', hbaseline', hregs, heffect⟩
    obtain rfl := Option.some.inj (hbaseline.symm.trans hpath)
    obtain rfl := Option.some.inj (hfile.symm.trans hfile')
    obtain rfl := ok_unique hload hbaseline'
    exact ⟨inputs, regs, hinputs, hregs, heffect⟩
  · rintro ⟨inputs, regs, hinputs, hregs, heffect⟩
    exact ⟨inputs, path, extracted.artifact, args.override b, regs, hinputs, hbaseline, hfile, hload, hregs,
      heffect⟩

/-! ## Extracting a UKI -/

/-- What `extract-uki` leaves behind. -/
theorem cmdExtractUki_eq_ok {host : Host} {args : ExtractUkiArgs} {effect : Effect}
    (h : cmdExtractUki host args = .ok effect) :
    ∃ disk uki, host.files args.disk = some disk ∧
      Disk.extractUki host.crc32 host.platform host.mcopy args.disk disk args.output args.maxExtractBytes
        = .ok uki ∧
      effect.artifact = uki := by
  simp only [cmdExtractUki, command_bind_eq_ok, requireFile_eq_ok, raising_eq_ok, command_pure_eq_ok] at h
  obtain ⟨disk, hdisk, uki, huki, rfl⟩ := h
  exact ⟨disk, uki, hdisk, huki, rfl⟩

/-- The second machine has the disk and the tools of the first, and its `mcopy` delivers to the temporary
directory of `_load_uki` what the first one delivered to the output path. -/
structure SameDisk (host host' : Host) (args : ExtractUkiArgs) : Prop where
  disk : host'.files args.disk = host.files args.disk
  platform : host'.platform = host.platform
  crc32 : host'.crc32 = host.crc32
  mcopy : ∀ image offset uki, host.mcopy image offset args.output = .ok uki →
    host'.mcopy image offset host'.tempUki = .ok uki

/-- The UKI that was extracted is the one that `azure-snp` finds on the disk. -/
theorem SameDisk.loadUki {host host' : Host} {args : ExtractUkiArgs} {args' : AzureArgs} {disk uki : Bytes}
    (hsame : SameDisk host host' args) (hnone : args'.uki = none)
    (hmax : args'.maxExtractBytes = args.maxExtractBytes)
    (huki : Disk.extractUki host.crc32 host.platform host.mcopy args.disk disk args.output args.maxExtractBytes
      = .ok uki) : loadUki host' args' args.disk disk = .ok uki := by
  simp only [Disk.extractUki, bind_eq_ok] at huki
  obtain ⟨raw, hraw, offset, hoffset, hcopied⟩ := huki
  rw [Cli.loadUki, hnone, hmax, hsame.platform, hsame.crc32]
  simp only [Disk.extractUki, raising_eq_ok, bind_eq_ok]
  exact ⟨raw, hraw, offset, hoffset, hsame.mcopy raw offset uki hcopied⟩

/-- **Extracting the UKI first changes nothing.** Where `extract-uki` succeeds, `azure-snp` on the same disk and
on the file it left has the outcome, output or exception, of `azure-snp` on the disk alone. -/
theorem azure_from_extracted {host host' : Host} {args : ExtractUkiArgs} {args' : AzureArgs} {extracted : Effect}
    {path : String} (hextract : cmdExtractUki host args = .ok extracted) (hsame : SameDisk host host' args)
    (hfile : host'.files path = some extracted.artifact) (hdisk : args'.disk = some args.disk)
    (hmax : args'.maxExtractBytes = args.maxExtractBytes) (hnone : args'.uki = none) :
    run host' (.azureSnp { args' with uki := some path }) = run host' (.azureSnp args') := by
  obtain ⟨disk, uki, hread, huki, hartifact⟩ := cmdExtractUki_eq_ok hextract
  have hfound : loadUki host' args' args.disk disk = .ok uki := hsame.loadUki hnone hmax huki
  have hgiven : loadUki host' { args' with disk := some args.disk, uki := some path } args.disk disk = .ok uki :=
    requireFile_eq_ok.mpr (hartifact ▸ hfile)
  have hrequired : requireFile host' args.disk "--disk" = .ok disk :=
    requireFile_eq_ok.mpr (hsame.disk.trans hread)
  have hargument : argument (some args.disk) "--disk is required" = .ok args.disk := rfl
  simp only [run, cmdAzureCompute, hdisk, hargument, command_ok_bind, hrequired, hfound, hgiven]

/-! ## A machine -/

/-- A machine with a log, a disk and a UKI, and with small hash functions. -/
def sampleHost : Host where
  files := fun path =>
    if path = "ccel.bin" then some (Tdx.sampleCcel [])
    else if path = "disk.raw" then some Disk.sampleDisk
    else if path = "uki.efi" then some Pe.sampleBootImage
    else none
  platform := Disk.samplePlatform
  mcopy := fun _ _ _ => throw (.other "subprocess.CalledProcessError")
  tempUki := "/tmp/tmp0/BOOTX64.EFI"
  save := fun _ _ => pure ()
  sha256 := Hash.sampleHash 32
  sha384 := Hash.sampleHash 48
  hashNew := fun _ => Hash.sampleHash 48
  crc32 := fun _ => 7

/-- The arguments that extract the baseline of that log to standard output. -/
def sampleExtractArgs : ExtractBaselineArgs where
  ccel := "ccel.bin"
  machineType := "a3-highgpu-1g"
  firmwareSha384 := none
  provider := some "GCP"
  platform := none
  output := none

/-- The arguments that compute the registers on a baseline. -/
def sampleComputeArgs : ComputeArgs where
  firmware := some "OVMF.fd"
  uki := some "uki.efi"
  disk := none
  maxExtractBytes := 4096
  baseline := some "baseline.json"
  ram := some 4
  numaNodes := 1
  maxPerNode := none
  mode := .all
  rtmr3 := none
  initdata := none
  outputFormat := .json

/-- The baseline of the small log, read on any machine that has it. -/
theorem compute_from_extracted_sample : ∃ (extracted : Effect) (b : Tdx.Baseline), ∀ host' : Host,
    host'.files "baseline.json" = some extracted.artifact → ∀ effect,
      cmdCompute host' sampleComputeArgs = .ok effect ↔
        ∃ inputs regs, ReadsInputs host' sampleComputeArgs inputs ∧
          inputs.registers host' sampleComputeArgs (sampleExtractArgs.override b) = .ok regs ∧
          effect = { stdout := outputRegisters regs.asDict .json } := by
  obtain ⟨b, hb⟩ : ∃ b, Tdx.extractFromCcel (Tdx.sampleCcel []) "a3-highgpu-1g" = .ok b :=
    exists_of_isOk (by decide +kernel)
  have hextract : cmdExtractBaseline sampleHost sampleExtractArgs
      = .ok { stdout := Tdx.baselineText (sampleExtractArgs.override b) ++ ['\n'] } := by
    simp only [cmdExtractBaseline, command_bind_eq_ok, requireFile_eq_ok, raising_eq_ok]
    exact ⟨Tdx.sampleCcel [], rfl, b, hb, rfl⟩
  refine ⟨{ stdout := Tdx.baselineText (sampleExtractArgs.override b) ++ ['\n'] }, b, fun host' hfile => ?_⟩
  have hbaseline : sampleComputeArgs.baseline = some "baseline.json" := rfl
  obtain ⟨ccel, b', hccel, hb', hiff⟩ := compute_from_extracted hextract hfile hbaseline rfl
  obtain rfl := Option.some.inj hccel
  obtain rfl := ok_unique hb hb'
  exact hiff

/-- The registers of a disk and a UKI, as text. -/
def sampleAzureArgs : AzureArgs where
  disk := some "disk.raw"
  uki := some "uki.efi"
  maxExtractBytes := 4096
  pcr8 := .none
  outputFormat := .text

/-- A machine whose `mcopy` finds a UKI, wherever it puts it. -/
def bootHost : Host := { sampleHost with mcopy := fun _ _ _ => pure Pe.sampleBootImage }

/-- The machine with a file left at a path. -/
def Host.leave (host : Host) (path : String) (data : Bytes) : Host :=
  { host with files := fun path' => if path' = path then some data else host.files path' }

/-- The file is there. -/
@[simp] theorem Host.leave_self (host : Host) (path : String) (data : Bytes) :
    (host.leave path data).files path = some data := if_pos rfl

/-- A file is left alone. -/
theorem Host.leave_of_ne (host : Host) {path path' : String} (data : Bytes) (h : path' ≠ path) :
    (host.leave path data).files path' = host.files path' := if_neg h

/-- The UKI extracted to a file, and `azure-snp` with and without it. -/
theorem azure_from_extracted_sample : ∃ extracted,
    cmdExtractUki bootHost ⟨"disk.raw", "boot.efi", 4096⟩ = .ok extracted ∧
    run (bootHost.leave "boot.efi" extracted.artifact) (.azureSnp { sampleAzureArgs with uki := some "boot.efi" })
      = run (bootHost.leave "boot.efi" extracted.artifact) (.azureSnp { sampleAzureArgs with uki := none }) := by
  have hok : (cmdExtractUki bootHost ⟨"disk.raw", "boot.efi", 4096⟩).isOk = true := by decide +kernel
  cases hextract : cmdExtractUki bootHost ⟨"disk.raw", "boot.efi", 4096⟩ with
  | error e =>
    rw [hextract] at hok
    cases hok
  | ok extracted =>
    have hsame : SameDisk bootHost (bootHost.leave "boot.efi" extracted.artifact) ⟨"disk.raw", "boot.efi", 4096⟩ :=
      ⟨bootHost.leave_of_ne extracted.artifact (show "disk.raw" ≠ "boot.efi" by decide), rfl, rfl,
        fun _ _ _ h => h⟩
    exact ⟨extracted, rfl, @azure_from_extracted _ _ _ { sampleAzureArgs with uki := none } _ _ hextract hsame
      (bootHost.leave_self "boot.efi" extracted.artifact) rfl rfl rfl⟩

end CvmMeasure.Cli
