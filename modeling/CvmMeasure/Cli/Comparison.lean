import CvmMeasure.Cli.Replays
import CvmMeasure.SectionReads
import CvmMeasure.Tdx.MeasuredTd

/-! # Outputs side by side

Attestation compares what `tdx` or `azure-snp` prints for published inputs with what a replay prints for the
event log of a guest. Whoever reads both outputs and finds equal values knows what the guest measured.

* `registerName_injective`: a register is found under its own name;
* **`SameValues`**: two outputs agree on some registers;
* **`tdx_outputs_match`**, **`azure_outputs_match`**: they agree exactly if the log measures the inputs. -/

namespace CvmMeasure.Cli

open Binary Python Tcg Hash

/-! ## Registers by name -/

/-- The text of a number is that of its JSON form. -/
theorem toList_toString_int (n : Int) : (toString n).toList = Json.intText n := by
  rw [Int.toString_eq_repr, Int.repr_eq_if, Json.intText]
  by_cases hn : 0 ≤ n
  · have habs : n.toNat = n.natAbs := by omega
    rw [if_pos hn, if_neg (by omega), Nat.toList_repr, habs]
  · have habs : (-n).toNat = n.natAbs := by omega
    rw [if_neg hn, if_pos (by omega), String.toList_append, Nat.toList_repr, habs]
    rfl

/-- **Different registers have different names.** -/
theorem registerName_injective (label : String) : Function.Injective (registerName label) := by
  intro i j h
  have htext : (registerName label i).toList = (registerName label j).toList := congrArg String.toList h
  simp only [registerName, String.toList_append, toList_toString_int] at htext
  -- a JSON reader finds the number again
  have hread : ∀ n, Json.scalar (Json.intText n ++ []) = some (.int n, []) :=
    fun n => Json.scalar_intText (fun _ hc => by cases hc) n
  have hvalue := (hread i).symm
  rw [List.append_cancel_left htext, hread j] at hvalue
  simpa using hvalue

/-- The value of a register in a replay. -/
theorem get?_replayed (label : String) (registers : List Int) (value : Int → String) (register : Int) :
    Dict.get? (registers.map fun i => (registerName label i, value i)) (registerName label register)
      = if register ∈ registers then some (value register) else none :=
  Dict.get?_map_of_injective (registerName_injective label) registers value register

/-- **The outputs agree on the registers of these names.** -/
def SameValues (names : List String) (computed replayed : Dict String String) : Prop :=
  ∀ name ∈ names, computed.get? name = replayed.get? name

section

variable {host : Host} {path : String} {computed replayed : Effect}

/-! ## A TD -/

/-- The baseline that `tdx` reads. -/
def ReadsBaseline (host : Host) (args : ComputeArgs) (baseline : Tdx.Baseline) : Prop :=
  ∃ path file, args.baseline = some path ∧ host.files path = some file ∧ Tdx.loadFile file = .ok baseline

/-- The registers of a TD, beside a printed replay of a log. -/
theorem sameValues_tdx_iff {regs : Tdx.ComputedRegisters} {log : ParsedEventLog} {out : Dict String String}
    (hout : out = [0, 1, 2, 3].map fun i : Int => (registerName "rtmr" i,
      hex (Tdx.replayDigests host.sha384 (registerDigests tpmAlgSha384 i log.events)))) :
    SameValues ["rtmr0", "rtmr1", "rtmr2"] regs.asDict out ↔ ∀ rtmr ∈ Tdx.imageRtmrs,
      hex (Tdx.replayEventLog host.sha384 log tpmAlgSha384 rtmr) = regs.rtmr rtmr := by
  have hnames : ["rtmr0", "rtmr1", "rtmr2"] = Tdx.imageRtmrs.map fun rtmr => registerName "rtmr" rtmr.val := rfl
  have hcomputed : ∀ rtmr ∈ Tdx.imageRtmrs,
      regs.asDict.get? (registerName "rtmr" rtmr.val) = some (regs.rtmr rtmr) := by
    simp only [Tdx.imageRtmrs, List.forall_mem_cons]
    exact ⟨rfl, rfl, rfl, fun _ h => absurd h List.not_mem_nil⟩
  have hreplayed : ∀ rtmr ∈ Tdx.imageRtmrs, out.get? (registerName "rtmr" rtmr.val)
      = some (hex (Tdx.replayEventLog host.sha384 log tpmAlgSha384 rtmr)) := by
    have hmem : ∀ rtmr ∈ Tdx.imageRtmrs, (rtmr.val : Int) ∈ [0, 1, 2, 3] := by decide
    intro rtmr hrtmr
    rw [hout, get?_replayed, if_pos (hmem rtmr hrtmr), Tdx.replayEventLog, replayEvents_eq_fold]
  rw [SameValues, hnames, List.forall_mem_map]
  refine forall₂_congr fun rtmr hrtmr => ?_
  rw [hcomputed rtmr hrtmr, hreplayed rtmr hrtmr, Option.some.injEq]
  exact eq_comm

/-- **The outputs of `tdx` and `tdx replay` match exactly on the logs that measure the TD.** Where both
commands succeed, the RTMR[0], RTMR[1] and RTMR[2] that a reader finds in them are equal if the log measures
the TD of the files given to `tdx`, in whatever order the registers are interleaved, and only then, up to a
failure of the hash on the inputs evaluated. -/
theorem tdx_outputs_match {args : ComputeArgs} (hlen : ∀ x, (host.sha384 x).length = Tdx.sha384Size)
    (hmode : args.mode = .all) (hcompute : run host (.tdx args) = .ok computed)
    (hreplay : run host (.tdxReplay path) = .ok replayed) :
    ∃ inputs baseline td data log printed, ReadsInputs host args inputs ∧ ReadsBaseline host args baseline ∧
      Tdx.ReadFrom inputs.firmware inputs.uki baseline inputs.ram args.numaNodes args.maxPerNode
        inputs.gptDigest td ∧
      host.files path = some data ∧ Tdx.parseEventLog data = .ok log ∧
      readOutput args.outputFormat computed.stdout = some printed ∧
      (Tdx.LogMeasures host.sha384 log td →
        SameValues ["rtmr0", "rtmr1", "rtmr2"] printed (readText replayed.stdout)) ∧
      (SameValues ["rtmr0", "rtmr1", "rtmr2"] printed (readText replayed.stdout) →
        UpTo host.sha384 Tdx.zeroRtmr (Tdx.comparedInputs host.sha384 log td)
          (Tdx.LogMeasures host.sha384 log td)) := by
  obtain ⟨data, log, hdata, hlog, hread⟩ := readText_tdxReplay hreplay
  obtain ⟨inputs, baselinePath, file, baseline, regs, hinputs, hpath, hfile, hbaseline, hregs, rfl⟩ :=
    (cmdCompute_eq_ok hmode).mp hcompute
  obtain ⟨hlines, hkeys⟩ := (Computes.registers hmode hinputs hpath hfile hbaseline hregs).onLines
  obtain ⟨td, htd, -, hvalues⟩ := Tdx.computeAll_commits hregs
  refine ⟨inputs, baseline, td, data, log, regs.asDict, hinputs, ⟨baselinePath, file, hpath, hfile, hbaseline⟩,
    htd, hdata, hlog, readOutput_outputRegisters hlines hkeys _, ?_⟩
  rw [sameValues_tdx_iff hread]
  exact Tdx.agrees_iff_measures hlen hvalues log

/-- A machine with published inputs for both platforms, and with a log of each. -/
def guestHost : Host :=
  { sampleHost with
    files := fun path =>
      if path = "OVMF.fd" then some Tdx.sampleGuestFirmware
      else if path = "tdx.efi" then some Tdx.sampleBootUki
      else if path = "baseline.json" then some (Tdx.saveFile (Tdx.sampleBootBaseline []))
      else if path = "ccel.bin" then some (Tdx.sampleCcel [])
      else if path = "eventlog.bin" then some AzureSnp.sampleLog.encode
      else sampleHost.files path }

/-- The arguments that compute the registers of that TD. -/
def guestArgs : ComputeArgs := { sampleComputeArgs with uki := some "tdx.efi" }

/-- A small TD, beside the replay of a small log. -/
theorem tdx_outputs_match_sample : ∃ computed replayed printed log, ∃ td : Tdx.MeasuredTd,
    run guestHost (.tdx guestArgs) = .ok computed ∧ run guestHost (.tdxReplay "ccel.bin") = .ok replayed ∧
    Tdx.parseEventLog (Tdx.sampleCcel []) = .ok log ∧
    readOutput .json computed.stdout = some printed ∧
    (Tdx.LogMeasures (sampleHash 48) log td →
      SameValues ["rtmr0", "rtmr1", "rtmr2"] printed (readText replayed.stdout)) ∧
    (SameValues ["rtmr0", "rtmr1", "rtmr2"] printed (readText replayed.stdout) →
      UpTo (sampleHash 48) Tdx.zeroRtmr (Tdx.comparedInputs (sampleHash 48) log td)
        (Tdx.LogMeasures (sampleHash 48) log td)) := by
  obtain ⟨log, hlog⟩ : ∃ log, Tdx.parseEventLog (Tdx.sampleCcel []) = .ok log :=
    exists_of_isOk (by decide +kernel)
  obtain ⟨regs, hregs⟩ := Tdx.exists_computeAll_sampleBoot [] (by simp)
  obtain ⟨computed, hcompute⟩ : ∃ effect, run guestHost (.tdx guestArgs) = .ok effect := by
    refine ⟨_, (cmdCompute_eq_ok rfl).mpr ⟨⟨Tdx.sampleGuestFirmware, Tdx.sampleBootUki, 4, none, none⟩,
      "baseline.json", _, _, regs, ?_, rfl, rfl, Tdx.loadFile_saveFile _, hregs, rfl⟩⟩
    exact ⟨⟨"OVMF.fd", rfl, rfl⟩, rfl, ⟨"tdx.efi", rfl, rfl⟩, rfl, rfl⟩
  obtain ⟨replayed, hreplay⟩ : ∃ effect, run guestHost (.tdxReplay "ccel.bin") = .ok effect := by
    simp only [run, cmdReplay, command_bind_eq_ok, requireFile_eq_ok, raising_eq_ok]
    exact ⟨_, _, rfl, log, hlog, rfl⟩
  obtain ⟨_, _, td, data, log', printed, -, -, -, hdata, hlog', hprinted, hmatch⟩ :=
    tdx_outputs_match (length_sampleHash 48) rfl hcompute hreplay
  obtain rfl := Option.some.inj hdata
  obtain rfl := ok_unique hlog' hlog
  exact ⟨computed, replayed, printed, log', td, hcompute, hreplay, hlog', hprinted, hmatch⟩

/-! ## A vTPM -/

/-- The registers of an image, beside a printed replay of a log. -/
theorem sameValues_azure_iff {pcrs : AzureSnp.ComputedPcrs} {roothash : Option (List Char)}
    {log : ParsedEventLog} {out : Dict String String}
    (hout : out = (touchedPcrs host.sha256 log tpmAlgSha256).map fun i => (registerName "pcr" i,
      hex (AzureSnp.replayDigests host.sha256 (registerDigests tpmAlgSha256 i log.events)))) :
    SameValues ["pcr4", "pcr5", "pcr9", "pcr11"] (withRoothash pcrs roothash) out ↔ ∀ pcr ∈ AzureSnp.imagePcrs,
      registerDigests tpmAlgSha256 pcr log.events ≠ [] ∧
        hex (AzureSnp.replayedPcr host.sha256 log pcr) = pcrs.value pcr := by
  have hnames : ["pcr4", "pcr5", "pcr9", "pcr11"] = AzureSnp.imagePcrs.map (registerName "pcr") := rfl
  have hcomputed : ∀ pcr ∈ AzureSnp.imagePcrs,
      (withRoothash pcrs roothash).get? (registerName "pcr" pcr) = some (pcrs.value pcr) := by
    simp only [AzureSnp.imagePcrs, List.forall_mem_cons]
    cases roothash <;> exact ⟨rfl, rfl, rfl, rfl, fun _ h => absurd h List.not_mem_nil⟩
  rw [SameValues, hnames, List.forall_mem_map]
  refine forall₂_congr fun pcr hpcr => ?_
  rw [hcomputed pcr hpcr, hout, get?_replayed]
  by_cases htouched : pcr ∈ touchedPcrs host.sha256 log tpmAlgSha256
  · rw [if_pos htouched, Option.some.injEq, and_iff_right (mem_touchedPcrs.mp htouched),
      AzureSnp.replayedPcr_eq]
    exact eq_comm
  · rw [if_neg htouched]
    exact iff_of_false (Option.some_ne_none _) fun h => htouched (mem_touchedPcrs.mpr h.1)

/-- Every register of a boot is extended: PCR 11 with the kernel, if with nothing else. -/
theorem payloads_ne_nil {uki gpt : Bytes} {boot : AzureSnp.MeasuredBoot} (h : AzureSnp.ReadFrom uki gpt boot) :
    ∀ pcr ∈ AzureSnp.imagePcrs, boot.payloads pcr ≠ [] := by
  have hsections : Pe.sectionHashInputs boot.sections ≠ [] := by
    obtain ⟨kernel, hkernel, -⟩ := h.kernel_eq
    have hlookup := ok_unique (measuredSections_lookup h.sections_eq ".linux" (by decide)) hkernel
    intro hnil
    cases hlist : boot.sections with
    | nil => rw [hlist] at hlookup; cases hlookup
    | cons s rest => rw [hlist] at hnil; cases hnil
  simp only [AzureSnp.imagePcrs, List.forall_mem_cons]
  exact ⟨List.cons_ne_nil _ _, List.cons_ne_nil _ _, List.cons_ne_nil _ _, hsections,
    fun _ h => absurd h List.not_mem_nil⟩

/-- **The outputs of `azure-snp` and `azure-snp replay` match exactly on the logs that measure the image.**
Where both commands succeed, the PCR 4, 5, 9 and 11 that a reader finds in them are there in both and equal if
the log measures the boot of the disk and the UKI, and only then, up to a failure of the hash on the inputs
evaluated. -/
theorem azure_outputs_match {args : AzureArgs} (hlen : ∀ x, (host.sha256 x).length = AzureSnp.sha256Size)
    (hcompute : run host (.azureSnp args) = .ok computed)
    (hreplay : run host (.azureSnpReplay path) = .ok replayed) :
    ∃ diskPath disk uki gpt boot data log printed, args.disk = some diskPath ∧
      host.files diskPath = some disk ∧ loadUki host args diskPath disk = .ok uki ∧
      Disk.gptEventDataOf host.crc32 host.platform diskPath disk args.maxExtractBytes = .ok gpt ∧
      AzureSnp.ReadFrom uki gpt boot ∧ host.files path = some data ∧ AzureSnp.parseEventLog data = .ok log ∧
      readOutput args.outputFormat computed.stdout = some printed ∧
      (AzureSnp.LogMeasures host.sha256 log boot →
        SameValues ["pcr4", "pcr5", "pcr9", "pcr11"] printed (readText replayed.stdout)) ∧
      (SameValues ["pcr4", "pcr5", "pcr9", "pcr11"] printed (readText replayed.stdout) →
        UpTo host.sha256 AzureSnp.zeroPcr (AzureSnp.comparedInputs host.sha256 log boot)
          (AzureSnp.LogMeasures host.sha256 log boot)) := by
  obtain ⟨data, log, hdata, hlog, hread⟩ := readText_azureReplay hreplay
  have hfmt : (Invocation.azureSnp args).format? = some args.outputFormat := rfl
  obtain ⟨printed, hcomputes, rfl⟩ := exists_computes hfmt hcompute
  obtain ⟨hlines, hkeys⟩ := hcomputes.onLines
  cases hcomputes with
  | @pcrs _ diskPath disk uki gpt _ pcrs roothash hdiskPath hdisk _ huki hgpt hpcrs _ =>
    obtain ⟨-, boot, hboot, hvalues⟩ := AzureSnp.computeAll_eq_ok.mp hpcrs
    obtain ⟨hmeasured, hagreed⟩ := AzureSnp.agrees_iff_measures hlen hvalues log
    refine ⟨diskPath, disk, uki, gpt, boot, data, log, _, hdiskPath, hdisk, huki, hgpt, hboot, hdata, hlog,
      readOutput_outputRegisters hlines hkeys _, ?_, ?_⟩
    · intro hmeasures
      rw [sameValues_azure_iff hread]
      refine fun pcr hpcr => ⟨?_, hmeasured hmeasures pcr hpcr⟩
      rw [hmeasures pcr hpcr, Ne, List.map_eq_nil_iff]
      exact payloads_ne_nil hboot pcr hpcr
    · intro hsame
      rw [sameValues_azure_iff hread] at hsame
      exact hagreed fun pcr hpcr => (hsame pcr hpcr).2

/-- A small image, beside the replay of a log of PCR 7. -/
theorem azure_outputs_match_sample : ∃ computed replayed printed log, ∃ boot : AzureSnp.MeasuredBoot,
    run guestHost (.azureSnp sampleAzureArgs) = .ok computed ∧
    run guestHost (.azureSnpReplay "eventlog.bin") = .ok replayed ∧
    AzureSnp.parseEventLog AzureSnp.sampleLog.encode = .ok log ∧
    readText computed.stdout = printed ∧
    (AzureSnp.LogMeasures (sampleHash 32) log boot →
      SameValues ["pcr4", "pcr5", "pcr9", "pcr11"] printed (readText replayed.stdout)) ∧
    (SameValues ["pcr4", "pcr5", "pcr9", "pcr11"] printed (readText replayed.stdout) →
      UpTo (sampleHash 32) AzureSnp.zeroPcr (AzureSnp.comparedInputs (sampleHash 32) log boot)
        (AzureSnp.LogMeasures (sampleHash 32) log boot)) := by
  have hok : (run guestHost (.azureSnp sampleAzureArgs)).isOk = true := by decide +kernel
  cases hcompute : run guestHost (.azureSnp sampleAzureArgs) with
  | error e => rw [hcompute] at hok; cases hok
  | ok computed =>
    have hlog : AzureSnp.parseEventLog AzureSnp.sampleLog.encode
        = .ok ⟨AzureSnp.sampleLog.digestSizes, AzureSnp.sampleLog.entries⟩ := by decide +kernel
    obtain ⟨replayed, hreplay⟩ : ∃ effect, run guestHost (.azureSnpReplay "eventlog.bin") = .ok effect := by
      simp only [run, cmdAzureReplay, command_bind_eq_ok, requireFile_eq_ok, raising_eq_ok]
      exact ⟨_, _, rfl, _, hlog, rfl⟩
    obtain ⟨_, _, _, _, boot, data, log, printed, -, -, -, -, -, hdata, hlog', hprinted, hmatch⟩ :=
      azure_outputs_match (length_sampleHash 32) hcompute hreplay
    obtain rfl := Option.some.inj hdata
    exact ⟨computed, replayed, printed, log, boot, rfl, hreplay, hlog', Option.some.inj hprinted, hmatch⟩

end

end CvmMeasure.Cli
