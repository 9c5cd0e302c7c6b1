import CvmMeasure.AzureSnp.MeasuredBoot
import CvmMeasure.Cli.Pipeline
import CvmMeasure.InitdataBinding
import CvmMeasure.Tdx.MeasuredTd

/-! # What is printed can be read

The registers are hexadecimal, and the root hash is a part of a word, so that neither holds what the two
formats use to tell values apart.

* `Computes`: the registers a command computes from the files it reads;
* **`printed_readable`**: what the command prints, in either format, reads as exactly these. -/

namespace CvmMeasure.Cli

open Binary Python

/-- What a reader makes of the output of a command. -/
def readOutput (fmt : OutputFormat) (out : List Char) : Option (Dict String String) :=
  match fmt with
  | .json => readJson out
  | .text => some (readText out)

/-- **A dictionary with distinct names that fits on lines is read back in either format.** -/
theorem readOutput_outputRegisters {data : Dict String String} (hlines : OnLines data)
    (hkeys : data.keys.Nodup) (fmt : OutputFormat) :
    readOutput fmt (outputRegisters data fmt) = some data := by
  cases fmt with
  | text => exact congrArg some (readText_outputText hlines)
  | json => exact readJson_outputJson hkeys

/-! ## Values -/

/-- A value without line breaks that does not start with a blank. -/
def OneLine (value : String) : Prop := '\n' ∉ value.toList ∧ value.toList.head? ≠ some ' '

/-- Text without whitespace is on one line. -/
theorem oneLine_of_no_space {cs : List Char} (h : ∀ c ∈ cs, isSpace c = false) :
    OneLine (String.ofList cs) := by
  rw [OneLine, String.toList_ofList]
  constructor
  · intro hmem
    exact absurd (h '\n' hmem) (by decide)
  · intro hhead
    exact absurd (h ' ' (List.mem_of_mem_head? hhead)) (by decide)

/-- A hexadecimal digit is no whitespace. -/
theorem isSpace_hexDigit {n : Nat} (hn : n < 16) : isSpace (hexDigit n) = false := by
  have hall : ∀ m < 16, isSpace (hexDigit m) = false := by decide
  exact hall n hn

/-- Hexadecimal stands on one line. -/
theorem oneLine_hex (bs : Bytes) : OneLine (hex bs) := by
  apply oneLine_of_no_space
  rw [List.forall_mem_flatMap]
  intro b _
  have hb : b.toNat < 256 := b.toNat_lt
  simp only [hexByte, List.forall_mem_cons]
  exact ⟨isSpace_hexDigit (by omega), isSpace_hexDigit (by omega), fun _ h => absurd h List.not_mem_nil⟩

/-- Known names and values on one line. -/
theorem onLines_of {data : Dict String String}
    (hnames : ∀ key ∈ data.keys, ':' ∉ key.toList ∧ '\n' ∉ key.toList)
    (hvalues : ∀ kv ∈ data, OneLine kv.2) : OnLines data := by
  intro kv hkv
  obtain ⟨hcolon, hbreak⟩ := hnames kv.1 (List.mem_map_of_mem hkv)
  obtain ⟨hline, hblank⟩ := hvalues kv hkv
  exact ⟨hcolon, hbreak, hline, hblank⟩

section

variable {sha384 sha256 : Bytes → Bytes} {hashNew : String → Bytes → Bytes}

/-- The registers of a TD are on one line each, -/
theorem oneLine_computedRegisters {firmware uki : Bytes} {baseline : Tdx.Baseline} {ramGib numaNodes : Int}
    {maxPerNodeGib : Option Int} {rtmr3Hex gptDigestHex : Option String} {regs : Tdx.ComputedRegisters}
    (h : Tdx.computeAll sha384 firmware uki baseline ramGib numaNodes maxPerNodeGib rtmr3Hex gptDigestHex
      = .ok regs) : ∀ kv ∈ regs.asDict, OneLine kv.2 := by
  obtain ⟨td, -, hmrtd, hrtmrs⟩ := Tdx.computeAll_commits h
  simp only [Tdx.imageRtmrs, List.forall_mem_cons] at hrtmrs
  obtain ⟨hrtmr0, hrtmr1, hrtmr2, -⟩ := hrtmrs
  obtain ⟨_, -, -, hrtmr3⟩ := rtmr3_eq_hex h
  simp only [Tdx.ComputedRegisters.asDict, List.forall_mem_cons]
  refine ⟨?_, ?_, ?_, ?_, ?_, fun _ h => absurd h List.not_mem_nil⟩
  · rw [hmrtd]
    exact oneLine_hex _
  · show OneLine (regs.rtmr Tdx.rtmr0)
    rw [hrtmr0]
    exact oneLine_hex _
  · show OneLine (regs.rtmr ⟨1, by decide⟩)
    rw [hrtmr1]
    exact oneLine_hex _
  · show OneLine (regs.rtmr ⟨2, by decide⟩)
    rw [hrtmr2]
    exact oneLine_hex _
  · rw [hrtmr3]
    exact oneLine_hex _

/-- and so are those of a vTPM. -/
theorem oneLine_computedPcrs {uki gpt : Bytes} {initdata : Option Bytes} {pcr8Hex : Option String}
    {pcrs : AzureSnp.ComputedPcrs} (h : AzureSnp.computeAll sha256 hashNew uki gpt initdata pcr8Hex = .ok pcrs) :
    ∀ kv ∈ pcrs.asDict, OneLine kv.2 := by
  obtain ⟨hpcr8, boot, -, hvalues⟩ := AzureSnp.computeAll_eq_ok.mp h
  obtain ⟨pcr8, hpcr8, -⟩ := pcr8_eq_hex hpcr8
  simp only [AzureSnp.imagePcrs, List.forall_mem_cons] at hvalues
  obtain ⟨hpcr4, hpcr5, hpcr9, hpcr11, -⟩ := hvalues
  simp only [AzureSnp.ComputedPcrs.asDict, List.forall_mem_cons]
  refine ⟨?_, ?_, ?_, ?_, ?_, fun _ h => absurd h List.not_mem_nil⟩
  · show OneLine (pcrs.value 4)
    rw [hpcr4]
    exact oneLine_hex _
  · show OneLine (pcrs.value 5)
    rw [hpcr5]
    exact oneLine_hex _
  · rw [hpcr8]
    exact oneLine_hex _
  · show OneLine (pcrs.value 9)
    rw [hpcr9]
    exact oneLine_hex _
  · show OneLine (pcrs.value 11)
    rw [hpcr11]
    exact oneLine_hex _

/-- A reported root hash is a part of a word. -/
theorem oneLine_roothash {uki : Bytes} {value : List Char} (h : AzureSnp.roothash uki = .ok (some value)) :
    OneLine (String.ofList value) := by
  simp only [AzureSnp.roothash, bind_eq_ok, pure_eq_ok] at h
  obtain ⟨cmdline, -, hloop⟩ := h
  obtain ⟨before, after, hwords, -⟩ := AzureSnp.roothashLoop_eq_some.mp hloop
  obtain ⟨_, _, _, _, hspace, _⟩ := AzureSnp.exists_assignsAt hwords
  exact oneLine_of_no_space hspace

end

/-! ## Commands -/

/-- The output format of a command that prints registers in either of them. -/
def Invocation.format? : Invocation → Option OutputFormat
  | .tdx args => some args.outputFormat
  | .azureSnp args => some args.outputFormat
  | _ => none

/-- The registers a command computes from the files it reads. -/
inductive Computes (host : Host) : Invocation → Dict String String → Prop
  | mrtd {args : ComputeArgs} {path : String} {firmware mrtd : Bytes} {ram : Int} (hmode : args.mode = .mrtd)
      (hpath : args.firmware = some path) (hfirmware : host.files path = some firmware)
      (hram : args.ram = some ram)
      (hmrtd : Tdx.computeMrtd host.sha384 firmware (some ram) args.numaNodes args.maxPerNode = .ok mrtd) :
      Computes host (.tdx args) [("mrtd", hex mrtd)]
  | registers {args : ComputeArgs} {inputs : Inputs} {path : String} {file : Bytes} {baseline : Tdx.Baseline}
      {regs : Tdx.ComputedRegisters} (hmode : args.mode = .all) (hinputs : ReadsInputs host args inputs)
      (hpath : args.baseline = some path) (hfile : host.files path = some file)
      (hbaseline : Tdx.loadFile file = .ok baseline)
      (hregs : inputs.registers host args baseline = .ok regs) :
      Computes host (.tdx args) regs.asDict
  | pcrs {args : AzureArgs} {path : String} {disk uki gpt : Bytes} {initdata : Option Bytes}
      {pcrs : AzureSnp.ComputedPcrs} {roothash : Option (List Char)} (hpath : args.disk = some path)
      (hdisk : host.files path = some disk) (hinitdata : readInitdata host args.pcr8 = .ok initdata)
      (huki : loadUki host args path disk = .ok uki)
      (hgpt : Disk.gptEventDataOf host.crc32 host.platform path disk args.maxExtractBytes = .ok gpt)
      (hpcrs : AzureSnp.computeAll host.sha256 host.hashNew uki gpt initdata args.pcr8.hex? = .ok pcrs)
      (hroothash : AzureSnp.roothash uki = .ok roothash) :
      Computes host (.azureSnp args) (withRoothash pcrs roothash)

/-- The registers of a command have distinct names and fit on lines. -/
theorem Computes.onLines {host : Host} {inv : Invocation} {data : Dict String String}
    (h : Computes host inv data) : OnLines data ∧ data.keys.Nodup := by
  cases h with
  | @mrtd _ _ _ mrtd =>
    constructor
    · apply onLines_of
      · show ∀ key ∈ ["mrtd"], _
        decide
      · rw [List.forall_mem_singleton]
        exact oneLine_hex mrtd
    · show ["mrtd"].Nodup
      decide
  | registers _ _ _ _ _ hregs =>
    constructor
    · apply onLines_of
      · show ∀ key ∈ ["mrtd", "rtmr0", "rtmr1", "rtmr2", "rtmr3"], _
        decide
      · exact oneLine_computedRegisters hregs
    · show ["mrtd", "rtmr0", "rtmr1", "rtmr2", "rtmr3"].Nodup
      decide
  | @pcrs _ _ _ _ _ _ pcrs roothash _ _ _ _ _ hpcrs hroothash =>
    have hvalues := oneLine_computedPcrs hpcrs
    cases roothash with
    | none =>
      constructor
      · apply onLines_of
        · show ∀ key ∈ ["pcr4", "pcr5", "pcr8", "pcr9", "pcr11"], _
          decide
        · exact hvalues
      · show ["pcr4", "pcr5", "pcr8", "pcr9", "pcr11"].Nodup
        decide
    | some value =>
      have hdata : withRoothash pcrs (some value) = pcrs.asDict ++ [("roothash", String.ofList value)] := rfl
      rw [hdata]
      constructor
      · apply onLines_of
        · show ∀ key ∈ ["pcr4", "pcr5", "pcr8", "pcr9", "pcr11", "roothash"], _
          decide
        · rw [List.forall_mem_append, List.forall_mem_singleton]
          exact ⟨hvalues, oneLine_roothash hroothash⟩
      · show ["pcr4", "pcr5", "pcr8", "pcr9", "pcr11", "roothash"].Nodup
        decide

/-- **What `azure-snp` prints**: the registers of the files it reads. -/
theorem cmdAzureCompute_eq_ok {host : Host} {args : AzureArgs} {effect : Effect} :
    cmdAzureCompute host args = .ok effect ↔
    ∃ path disk initdata uki gpt pcrs roothash, args.disk = some path ∧ host.files path = some disk ∧
      readInitdata host args.pcr8 = .ok initdata ∧ loadUki host args path disk = .ok uki ∧
      Disk.gptEventDataOf host.crc32 host.platform path disk args.maxExtractBytes = .ok gpt ∧
      AzureSnp.computeAll host.sha256 host.hashNew uki gpt initdata args.pcr8.hex? = .ok pcrs ∧
      AzureSnp.roothash uki = .ok roothash ∧
      effect = { stdout := outputRegisters (withRoothash pcrs roothash) args.outputFormat } := by
  simp only [cmdAzureCompute, command_bind_eq_ok, argument_eq_ok, requireFile_eq_ok, raising_eq_ok,
    command_pure_eq_ok]
  constructor
  · rintro ⟨path, hpath, disk, hdisk, initdata, hinitdata, uki, huki, gpt, hgpt, pcrs, hpcrs, roothash, hroothash,
      rfl⟩
    exact ⟨path, disk, initdata, uki, gpt, pcrs, roothash, hpath, hdisk, hinitdata, huki, hgpt, hpcrs, hroothash,
      rfl⟩
  · rintro ⟨path, disk, initdata, uki, gpt, pcrs, roothash, hpath, hdisk, hinitdata, huki, hgpt, hpcrs, hroothash,
      rfl⟩
    exact ⟨path, hpath, disk, hdisk, initdata, hinitdata, uki, huki, gpt, hgpt, pcrs, hpcrs, roothash, hroothash,
      rfl⟩

/-- A command that prints registers prints those it computes. -/
theorem exists_computes {host : Host} {inv : Invocation} {effect : Effect} {fmt : OutputFormat}
    (hfmt : inv.format? = some fmt) (h : run host inv = .ok effect) :
    ∃ data, Computes host inv data ∧ effect = { stdout := outputRegisters data fmt } := by
  cases inv with
  | tdx args =>
    cases hfmt
    cases hmode : args.mode with
    | all =>
      obtain ⟨inputs, path, file, baseline, regs, hinputs, hpath, hfile, hbaseline, hregs, heffect⟩ :=
        (cmdCompute_eq_ok hmode).mp h
      exact ⟨_, Computes.registers hmode hinputs hpath hfile hbaseline hregs, heffect⟩
    | mrtd =>
      simp only [run, cmdCompute, hmode, command_bind_eq_ok, argument_eq_ok, requireFile_eq_ok,
        raising_eq_ok, command_pure_eq_ok] at h
      obtain ⟨path, hpath, ram, hram, firmware, hfirmware, mrtd, hmrtd, rfl⟩ := h
      exact ⟨_, Computes.mrtd hmode hpath hfirmware hram hmrtd, rfl⟩
  | azureSnp args =>
    cases hfmt
    obtain ⟨path, disk, initdata, uki, gpt, pcrs, roothash, hpath, hdisk, hinitdata, huki, hgpt, hpcrs, hroothash,
      rfl⟩ := cmdAzureCompute_eq_ok.mp h
    exact ⟨_, Computes.pcrs hpath hdisk hinitdata huki hgpt hpcrs hroothash, rfl⟩
  | _ => cases hfmt

/-- **What is printed reads as the registers computed**: in either format, the names and values that a reader
finds in the output of `tdx` or `azure-snp` are exactly those computed from the files, the root hash
included, and the command leaves nothing else behind. -/
theorem printed_readable {host : Host} {inv : Invocation} {effect : Effect} {fmt : OutputFormat}
    (hfmt : inv.format? = some fmt) (h : run host inv = .ok effect) :
    ∃ data, Computes host inv data ∧ readOutput fmt effect.stdout = some data ∧ effect.stderr = [] ∧
      effect.written = none := by
  obtain ⟨data, hdata, rfl⟩ := exists_computes hfmt h
  obtain ⟨hlines, hkeys⟩ := hdata.onLines
  exact ⟨data, hdata, readOutput_outputRegisters hlines hkeys fmt, rfl, rfl⟩

/-- The registers of the small disk and the small UKI. -/
theorem printed_readable_sample : ∃ effect data, run sampleHost (.azureSnp sampleAzureArgs) = .ok effect ∧
    Computes sampleHost (.azureSnp sampleAzureArgs) data ∧ readText effect.stdout = data := by
  have hok : (run sampleHost (.azureSnp sampleAzureArgs)).isOk = true := by decide +kernel
  cases hrun : run sampleHost (.azureSnp sampleAzureArgs) with
  | error e =>
    rw [hrun] at hok
    cases hok
  | ok effect =>
    obtain ⟨data, hdata, hread, -⟩ := printed_readable rfl hrun
    exact ⟨effect, data, rfl, hdata, Option.some.inj hread⟩

end CvmMeasure.Cli
