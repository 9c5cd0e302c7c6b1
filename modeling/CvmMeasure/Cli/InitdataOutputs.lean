import CvmMeasure.Cli.Comparison

/-! # Initdata in the outputs

Whoever reads the initdata register in the output of `tdx` or `azure-snp` knows the document it was computed
from, and can state the register in place of the document.

* `ReadsDocument`: the document at the path that the command was given, if it was given one;
* **`tdx_output_binds_initdata`**, **`azure_output_binds_initdata`**: the document behind an output;
* **`initdata_by_value`**: the values that stand for it. -/

namespace CvmMeasure.Cli

open Binary Python Hash

/-! ## The document behind an output -/

/-- The initdata document at a path, if a path is given. -/
inductive ReadsDocument (files : String → Option Bytes) : Option String → Option Bytes → Prop
  | without : ReadsDocument files none none
  | file {path : String} {data : Bytes} (h : files path = some data) : ReadsDocument files (some path) (some data)

/-- The path of `--initdata`. -/
def Pcr8Source.path? : Pcr8Source → Option String
  | .initdata path => some path
  | _ => Option.none

section

variable {host : Host} {effect : Effect} {printed : Dict String String}

/-- Without `--rtmr3`, RTMR[3] is extended with the digest of the document, or not at all. -/
theorem resolveRtmr3_eq_ok {args : ComputeArgs} {rtmr3Hex : Option String} (hrtmr3 : args.rtmr3 = none)
    (h : resolveRtmr3 host args = .ok rtmr3Hex) :
    ∃ initdata ds, ReadsDocument host.files args.initdata initdata ∧
      Extends (Rtmr3Digest host.hashNew) initdata ds ∧
      rtmr3Hex = initdata.map fun _ => hex (replay host.sha384 Tdx.zeroRtmr ds) := by
  rw [resolveRtmr3, hrtmr3] at h
  cases hpath : args.initdata with
  | none =>
    rw [hpath] at h
    cases h
    exact ⟨none, [], ReadsDocument.without, Extends.without, rfl⟩
  | some path =>
    rw [hpath] at h
    simp only [command_bind_eq_ok, requireFile_eq_ok, raising_eq_ok, command_pure_eq_ok] at h
    obtain ⟨data, hdata, value, hvalue, rfl⟩ := h
    obtain ⟨digest, hdigest, rfl⟩ := initdataRtmr3_eq_ok.mp hvalue
    exact ⟨some data, [digest], ReadsDocument.file hdata, Extends.document hdigest, rfl⟩

/-- A document that is there and accepted gives RTMR[3]. -/
theorem resolveRtmr3_of_document {args : ComputeArgs} {path value : String} {data : Bytes}
    (hpath : args.initdata = some path) (hrtmr3 : args.rtmr3 = none) (hdata : host.files path = some data)
    (hvalue : Tdx.initdataRtmr3 host.sha384 host.hashNew data = .ok value) :
    resolveRtmr3 host args = .ok (some value) := by
  rw [resolveRtmr3, hpath, hrtmr3]
  simp only [command_bind_eq_ok, requireFile_eq_ok, raising_eq_ok, command_pure_eq_ok]
  exact ⟨data, hdata, value, hvalue, rfl⟩

/-- The RTMR[3] that `tdx` prints. -/
theorem tdx_prints_rtmr3 {args : ComputeArgs} (hmode : args.mode = .all) (hrtmr3 : args.rtmr3 = none)
    (h : run host (.tdx args) = .ok effect)
    (hread : readOutput args.outputFormat effect.stdout = some printed) :
    ∃ initdata ds, ReadsDocument host.files args.initdata initdata ∧
      Extends (Rtmr3Digest host.hashNew) initdata ds ∧
      printed.get? "rtmr3" = some (hex (replay host.sha384 Tdx.zeroRtmr ds)) := by
  obtain ⟨inputs, path, file, baseline, regs, hinputs, hpath, hfile, hbaseline, hregs, rfl⟩ :=
    (cmdCompute_eq_ok hmode).mp h
  obtain ⟨hlines, hkeys⟩ := (Computes.registers hmode hinputs hpath hfile hbaseline hregs).onLines
  obtain rfl := Option.some.inj ((readOutput_outputRegisters hlines hkeys _).symm.trans hread)
  obtain ⟨initdata, ds, hdocument, hextends, hgiven⟩ := resolveRtmr3_eq_ok hrtmr3 hinputs.rtmr3
  obtain ⟨raw, hraw, -, hvalue⟩ := rtmr3_eq_hex hregs
  refine ⟨initdata, ds, hdocument, hextends, ?_⟩
  show some regs.rtmr3 = _
  rw [hvalue]
  rw [hgiven] at hraw
  cases hextends with
  | without =>
    obtain rfl := pure_eq_ok.mp hraw
    rfl
  | document hdigest =>
    have hfrom := (Tdx.digestFromHex_eq_ok.mp hraw).1
    rw [fromHex_hex] at hfrom
    rw [Option.some.inj hfrom]

/-- The PCR 8 of the registers, with or without a root hash beside them. -/
theorem get?_pcr8 (pcrs : AzureSnp.ComputedPcrs) (roothash : Option (List Char)) :
    (withRoothash pcrs roothash).get? "pcr8" = some pcrs.pcr8 := by
  cases roothash with
  | none => rfl
  | some value => rfl

/-- The PCR 8 that `azure-snp` prints. -/
theorem azure_prints_pcr8 {args : AzureArgs} (hvalue : args.pcr8.hex? = none)
    (h : run host (.azureSnp args) = .ok effect)
    (hread : readOutput args.outputFormat effect.stdout = some printed) :
    ∃ initdata ds, ReadsDocument host.files args.pcr8.path? initdata ∧
      Extends (Pcr8Digest host.hashNew) initdata ds ∧
      printed.get? "pcr8" = some (hex (replay host.sha256 AzureSnp.zeroPcr ds)) := by
  have hfmt : (Invocation.azureSnp args).format? = some args.outputFormat := rfl
  obtain ⟨data, hcomputes, rfl⟩ := exists_computes hfmt h
  obtain ⟨hlines, hkeys⟩ := hcomputes.onLines
  obtain rfl := Option.some.inj ((readOutput_outputRegisters hlines hkeys _).symm.trans hread)
  cases hcomputes with
  | @pcrs _ _ _ _ _ initdata pcrs roothash _ _ hinitdata _ _ hpcrs _ =>
    rw [hvalue] at hpcrs
    obtain ⟨ds, hextends, hpcr8⟩ := resolvePcr8_eq_ok.mp (AzureSnp.computeAll_eq_ok.mp hpcrs).1
    refine ⟨initdata, ds, ?_, hextends, ?_⟩
    · cases hsource : args.pcr8 with
      | none =>
        rw [hsource] at hinitdata
        cases hinitdata
        exact ReadsDocument.without
      | initdata path =>
        rw [hsource] at hinitdata
        simp only [readInitdata, command_bind_eq_ok, requireFile_eq_ok, command_pure_eq_ok] at hinitdata
        obtain ⟨data, hdata, rfl⟩ := hinitdata
        exact ReadsDocument.file hdata
      | pcr8 value =>
        rw [hsource] at hvalue
        cases hvalue
    · rw [← hpcr8]
      exact get?_pcr8 pcrs roothash

end

/-- A document that names its algorithm and nothing else. -/
def podDocument : Bytes := asciiBytes "algorithm = \"sha384\"\n"

/-- A machine that also has this document, and a UKI of its own. -/
def podHost (uki : Bytes) : Host :=
  { guestHost with
    files := fun path =>
      if path = "initdata.toml" then some podDocument
      else if path = "pod.efi" then some uki
      else guestHost.files path }

/-- The arguments that compute the registers of a TD started with them, printed in either format. -/
def podArgs (fmt : OutputFormat) : ComputeArgs :=
  { guestArgs with uki := some "pod.efi", initdata := some "initdata.toml", outputFormat := fmt }

/-- The same for a vTPM. -/
def podAzureArgs (fmt : OutputFormat) : AzureArgs :=
  { sampleAzureArgs with uki := some "pod.efi", pcr8 := .initdata "initdata.toml", outputFormat := fmt }

/-- The RTMR[3] of that document. -/
theorem initdataRtmr3_podDocument : ∃ raw, raw.length = Tdx.sha384Size ∧
    Tdx.initdataRtmr3 (sampleHash 48) guestHost.hashNew podDocument = .ok (hex raw) := by
  have hname : Initdata.parseAlgorithm podDocument = .ok Tdx.tdxAlgorithm := by decide +kernel
  exact ⟨_, length_sampleHash 48 _, initdataRtmr3_eq_ok.mpr ⟨_, ⟨hname, rfl⟩, rfl⟩⟩

/-- What `tdx` prints there, by the registers of the UKI without a document. -/
theorem run_podArgs {uki raw : Bytes} {regs : Tdx.ComputedRegisters}
    (hregs : Tdx.computeAll (sampleHash 48) Tdx.sampleGuestFirmware uki (Tdx.sampleBootBaseline []) 4 1 none none
      none = .ok regs) (hlen : raw.length = Tdx.sha384Size)
    (hraw : Tdx.initdataRtmr3 (sampleHash 48) guestHost.hashNew podDocument = .ok (hex raw)) (fmt : OutputFormat) :
    ∃ effect, run (podHost uki) (.tdx (podArgs fmt)) = .ok effect ∧ readOutput fmt effect.stdout
      = some (Tdx.ComputedRegisters.asDict { regs with rtmr3 := hex raw }) := by
  have hgiven : Tdx.givenRtmr3 (some (hex raw)) = .ok raw := Tdx.digestFromHex_eq_ok.mpr ⟨fromHex_hex raw, hlen⟩
  have hregs' := (computeAll_givenRtmr3 hregs (some (hex raw))).mpr ⟨raw, hgiven, rfl⟩
  have hinputs : ReadsInputs (podHost uki) (podArgs fmt)
      ⟨Tdx.sampleGuestFirmware, uki, 4, some (hex raw), none⟩ := by
    refine ⟨⟨"OVMF.fd", rfl, rfl⟩, rfl, ⟨"pod.efi", rfl, rfl⟩, ?_, rfl⟩
    have hfile : (podHost uki).files "initdata.toml" = some podDocument := rfl
    exact resolveRtmr3_of_document rfl rfl hfile hraw
  have hcomputes : Computes (podHost uki) (.tdx (podArgs fmt)) _ :=
    Computes.registers rfl hinputs rfl rfl (Tdx.loadFile_saveFile _) hregs'
  exact ⟨_, (cmdCompute_eq_ok rfl).mpr ⟨_, _, _, _, _, hinputs, rfl, rfl, Tdx.loadFile_saveFile _, hregs', rfl⟩,
    readOutput_outputRegisters hcomputes.onLines.1 hcomputes.onLines.2 fmt⟩

/-- And what `azure-snp` prints, with the PCR 8 of the document in it. -/
theorem run_podAzureArgs {uki : Bytes} (hok : (run (podHost uki) (.azureSnp (podAzureArgs .json))).isOk = true) :
    ∃ (data : Dict String String) (value : String), data.get? "pcr8" = some value ∧
      AzureSnp.resolvePcr8 (sampleHash 32) guestHost.hashNew (some podDocument) none = .ok value ∧
      ∀ fmt, ∃ effect, run (podHost uki) (.azureSnp (podAzureArgs fmt)) = .ok effect ∧
        readOutput fmt effect.stdout = some data := by
  cases hrun : run (podHost uki) (.azureSnp (podAzureArgs .json)) with
  | error e =>
    rw [hrun] at hok
    cases hok
  | ok effect =>
    obtain ⟨path, disk, initdata, uki, gpt, pcrs, roothash, hpath, hdisk, hinitdata, huki, hgpt, hpcrs, hroothash,
      -⟩ := cmdAzureCompute_eq_ok.mp hrun
    obtain rfl : some podDocument = initdata := Except.ok.inj hinitdata
    refine ⟨withRoothash pcrs roothash, pcrs.pcr8, get?_pcr8 pcrs roothash, (AzureSnp.computeAll_eq_ok.mp hpcrs).1,
      fun fmt => ?_⟩
    have hcomputes : Computes (podHost _) (.azureSnp (podAzureArgs fmt)) _ :=
      Computes.pcrs hpath hdisk hinitdata huki hgpt hpcrs hroothash
    exact ⟨_, cmdAzureCompute_eq_ok.mpr ⟨path, disk, some podDocument, uki, gpt, pcrs, roothash, hpath, hdisk,
      hinitdata, huki, hgpt, hpcrs, hroothash, rfl⟩,
      readOutput_outputRegisters hcomputes.onLines.1 hcomputes.onLines.2 fmt⟩

/-- The same hash functions on two machines, whatever else is different. -/
structure SameHashes (host host' : Host) : Prop where
  sha256 : host'.sha256 = host.sha256
  sha384 : host'.sha384 = host.sha384
  hashNew : host'.hashNew = host.hashNew

/-- Such machines have the same hash functions. -/
theorem sameHashes_podHost (uki uki' : Bytes) : SameHashes (podHost uki) (podHost uki') := ⟨rfl, rfl, rfl⟩

section

variable {host host' : Host} {computed computed' : Effect} {printed printed' : Dict String String}

/-- **Two outputs of `tdx` with one RTMR[3] come from one initdata document.** On whatever two machines the
command ran, and whatever else it was given, it read the same document, or none both times; otherwise SHA-384
fails on the inputs evaluated, or two different documents have one digest. -/
theorem tdx_output_binds_initdata {args args' : ComputeArgs} (hhashes : SameHashes host host')
    (hlen : ∀ x, (host.sha384 x).length = Tdx.sha384Size) (hmode : args.mode = .all) (hmode' : args'.mode = .all)
    (hrtmr3 : args.rtmr3 = none) (hrtmr3' : args'.rtmr3 = none) (hcompute : run host (.tdx args) = .ok computed)
    (hcompute' : run host' (.tdx args') = .ok computed')
    (hread : readOutput args.outputFormat computed.stdout = some printed)
    (hread' : readOutput args'.outputFormat computed'.stdout = some printed')
    (hsame : SameValues ["rtmr3"] printed printed') :
    ∃ initdata initdata' ds ds', ReadsDocument host.files args.initdata initdata ∧
      ReadsDocument host'.files args'.initdata initdata' ∧ Extends (Rtmr3Digest host.hashNew) initdata ds ∧
      Extends (Rtmr3Digest host.hashNew) initdata' ds' ∧
      UpTo host.sha384 Tdx.zeroRtmr
        (replayInputs host.sha384 Tdx.zeroRtmr ds ++ replayInputs host.sha384 Tdx.zeroRtmr ds')
        (initdata = initdata' ∨ SameDigest (Rtmr3Digest host.hashNew) initdata initdata') := by
  obtain ⟨initdata, ds, hdocument, hextends, hprinted⟩ := tdx_prints_rtmr3 hmode hrtmr3 hcompute hread
  obtain ⟨initdata', ds', hdocument', hextends', hprinted'⟩ := tdx_prints_rtmr3 hmode' hrtmr3' hcompute' hread'
  rw [hhashes.hashNew] at hextends'
  rw [hhashes.sha384] at hprinted'
  have hvalues := (hprinted.symm.trans (hsame "rtmr3" List.mem_cons_self)).trans hprinted'
  exact ⟨initdata, initdata', ds, ds', hdocument, hdocument', hextends, hextends',
    hextends.binding hlen (List.length_replicate ..) hextends' (hex_injective (Option.some.inj hvalues))⟩

/-- One document given to two TDs with different kernels. -/
theorem tdx_output_binds_initdata_sample : ∃ computed computed' printed printed',
    run (podHost Tdx.sampleBootUki) (.tdx (podArgs .json)) = .ok computed ∧
    run (podHost unsignedUki) (.tdx (podArgs .text)) = .ok computed' ∧
    readOutput .json computed.stdout = some printed ∧ readOutput .text computed'.stdout = some printed' ∧
    ∃ initdata initdata' ds ds',
      ReadsDocument (podHost Tdx.sampleBootUki).files (some "initdata.toml") initdata ∧
      ReadsDocument (podHost unsignedUki).files (some "initdata.toml") initdata' ∧
      Extends (Rtmr3Digest guestHost.hashNew) initdata ds ∧ Extends (Rtmr3Digest guestHost.hashNew) initdata' ds' ∧
      UpTo (sampleHash 48) Tdx.zeroRtmr
        (replayInputs (sampleHash 48) Tdx.zeroRtmr ds ++ replayInputs (sampleHash 48) Tdx.zeroRtmr ds')
        (initdata = initdata' ∨ SameDigest (Rtmr3Digest guestHost.hashNew) initdata initdata') := by
  obtain ⟨raw, hlen, hraw⟩ := initdataRtmr3_podDocument
  obtain ⟨regs, hregs⟩ := Tdx.exists_computeAll_sampleBoot [] (by simp)
  obtain ⟨regs', hregs'⟩ := Tdx.exists_computeAll_unsignedUki
  obtain ⟨computed, hcomputed, hread⟩ := run_podArgs hregs hlen hraw .json
  obtain ⟨computed', hcomputed', hread'⟩ := run_podArgs hregs' hlen hraw .text
  have hsame : SameValues ["rtmr3"] (Tdx.ComputedRegisters.asDict { regs with rtmr3 := hex raw })
      (Tdx.ComputedRegisters.asDict { regs' with rtmr3 := hex raw }) := by
    intro name hname
    obtain rfl := List.mem_singleton.mp hname
    rfl
  exact ⟨computed, computed', _, _, hcomputed, hcomputed', hread, hread',
    tdx_output_binds_initdata (sameHashes_podHost _ _) (length_sampleHash 48) rfl rfl rfl rfl hcomputed hcomputed' hread
      hread' hsame⟩

/-- **Two outputs of `azure-snp` with one PCR 8 come from one initdata document**, or from none both times:
the register cuts the digest, so that otherwise, where SHA-256 does not fail on the inputs evaluated, two
different documents have digests with the same first 32 bytes, each under the algorithm it declares. -/
theorem azure_output_binds_initdata {args args' : AzureArgs} (hhashes : SameHashes host host')
    (hlen : ∀ x, (host.sha256 x).length = AzureSnp.sha256Size) (hvalue : args.pcr8.hex? = none)
    (hvalue' : args'.pcr8.hex? = none) (hcompute : run host (.azureSnp args) = .ok computed)
    (hcompute' : run host' (.azureSnp args') = .ok computed')
    (hread : readOutput args.outputFormat computed.stdout = some printed)
    (hread' : readOutput args'.outputFormat computed'.stdout = some printed')
    (hsame : SameValues ["pcr8"] printed printed') :
    ∃ initdata initdata' ds ds', ReadsDocument host.files args.pcr8.path? initdata ∧
      ReadsDocument host'.files args'.pcr8.path? initdata' ∧ Extends (Pcr8Digest host.hashNew) initdata ds ∧
      Extends (Pcr8Digest host.hashNew) initdata' ds' ∧
      UpTo host.sha256 AzureSnp.zeroPcr
        (replayInputs host.sha256 AzureSnp.zeroPcr ds ++ replayInputs host.sha256 AzureSnp.zeroPcr ds')
        (initdata = initdata' ∨ SameDigest (Pcr8Digest host.hashNew) initdata initdata') := by
  obtain ⟨initdata, ds, hdocument, hextends, hprinted⟩ := azure_prints_pcr8 hvalue hcompute hread
  obtain ⟨initdata', ds', hdocument', hextends', hprinted'⟩ := azure_prints_pcr8 hvalue' hcompute' hread'
  rw [hhashes.hashNew] at hextends'
  rw [hhashes.sha256] at hprinted'
  have hvalues := (hprinted.symm.trans (hsame "pcr8" List.mem_cons_self)).trans hprinted'
  exact ⟨initdata, initdata', ds, ds', hdocument, hdocument', hextends, hextends',
    hextends.binding hlen (List.length_replicate ..) hextends' (hex_injective (Option.some.inj hvalues))⟩

/-- One document given to two images with different kernels. -/
theorem azure_output_binds_initdata_sample : ∃ computed computed' printed printed',
    run (podHost Pe.sampleBootImage) (.azureSnp (podAzureArgs .json)) = .ok computed ∧
    run (podHost unsignedUki) (.azureSnp (podAzureArgs .text)) = .ok computed' ∧
    readOutput .json computed.stdout = some printed ∧ readOutput .text computed'.stdout = some printed' ∧
    ∃ initdata initdata' ds ds',
      ReadsDocument (podHost Pe.sampleBootImage).files (some "initdata.toml") initdata ∧
      ReadsDocument (podHost unsignedUki).files (some "initdata.toml") initdata' ∧
      Extends (Pcr8Digest guestHost.hashNew) initdata ds ∧ Extends (Pcr8Digest guestHost.hashNew) initdata' ds' ∧
      UpTo (sampleHash 32) AzureSnp.zeroPcr
        (replayInputs (sampleHash 32) AzureSnp.zeroPcr ds ++ replayInputs (sampleHash 32) AzureSnp.zeroPcr ds')
        (initdata = initdata' ∨ SameDigest (Pcr8Digest guestHost.hashNew) initdata initdata') := by
  obtain ⟨printed, value, hprinted, hvalue, hrun⟩ := @run_podAzureArgs Pe.sampleBootImage (by decide +kernel)
  obtain ⟨printed', value', hprinted', hvalue', hrun'⟩ := @run_podAzureArgs unsignedUki (by decide +kernel)
  obtain ⟨computed, hcomputed, hread⟩ := hrun .json
  obtain ⟨computed', hcomputed', hread'⟩ := hrun' .text
  have hsame : SameValues ["pcr8"] printed printed' := by
    intro name hname
    obtain rfl := List.mem_singleton.mp hname
    rw [hprinted, hprinted', ok_unique hvalue hvalue']
  exact ⟨computed, computed', printed, printed', hcomputed, hcomputed', hread, hread',
    azure_output_binds_initdata (sameHashes_podHost _ _) (length_sampleHash 32) rfl rfl hcomputed hcomputed' hread hread'
      hsame⟩

end

/-! ## Given by value -/

/-- An invocation, and the same with the named initdata register given by value instead. -/
inductive ByValue (value : String) : Invocation → Invocation → String → Prop
  | rtmr3 {args : ComputeArgs} (hmode : args.mode = .all) :
      ByValue value (.tdx args) (.tdx { args with rtmr3 := some value, initdata := none }) "rtmr3"
  | pcr8 {args : AzureArgs} :
      ByValue value (.azureSnp args) (.azureSnp { args with pcr8 := .pcr8 value }) "pcr8"

section

variable {host : Host} {effect : Effect} {value : String}

/-- Beside RTMR[3], the invocation reads what it read. -/
theorem ReadsInputs.byValue {args : ComputeArgs} {inputs inputs' : Inputs} (h : ReadsInputs host args inputs) :
    ReadsInputs host { args with rtmr3 := some value, initdata := none } inputs' ↔
      inputs' = { inputs with rtmr3 := some value } := by
  constructor
  · intro h'
    obtain ⟨path, hpath, hfirmware⟩ := h.firmware
    obtain ⟨path', hpath', hfirmware'⟩ := h'.firmware
    obtain rfl := Option.some.inj (hpath.symm.trans hpath')
    obtain ⟨ukiPath, hukiPath, huki⟩ := h.uki
    obtain ⟨ukiPath', hukiPath', huki'⟩ := h'.uki
    obtain rfl := Option.some.inj (hukiPath.symm.trans hukiPath')
    have hgpt : (Except.ok inputs'.gptDigest : Command _) = .ok inputs.gptDigest :=
      h'.gptDigest.symm.trans h.gptDigest
    have hrtmr3 : (Except.ok inputs'.rtmr3 : Command _) = .ok (some value) := h'.rtmr3.symm
    obtain ⟨firmware', uki', ram', rtmr3', gptDigest'⟩ := inputs'
    simp only [Inputs.mk.injEq]
    exact ⟨Option.some.inj (hfirmware'.symm.trans hfirmware), Option.some.inj (huki'.symm.trans huki),
      Option.some.inj (h'.ram.symm.trans h.ram), Except.ok.inj hrtmr3, Except.ok.inj hgpt⟩
  · rintro rfl
    exact ⟨h.firmware, h.ram, h.uki, rfl, h.gptDigest⟩

/-- What is printed tells the registers. -/
theorem outputRegisters_inj {data data' : Dict String String} {fmt : OutputFormat}
    (h : OnLines data ∧ data.keys.Nodup) (h' : OnLines data' ∧ data'.keys.Nodup)
    (heq : outputRegisters data fmt = outputRegisters data' fmt) : data = data' := by
  have hread := readOutput_outputRegisters h.1 h.2 fmt
  rw [heq, readOutput_outputRegisters h'.1 h'.2] at hread
  exact (Option.some.inj hread).symm

/-- `tdx` with RTMR[3] given by value. -/
theorem tdx_by_value {args : ComputeArgs} (hmode : args.mode = .all) (h : run host (.tdx args) = .ok effect) :
    ∃ data register, readOutput args.outputFormat effect.stdout = some data ∧ data.get? "rtmr3" = some register ∧
      (run host (.tdx { args with rtmr3 := some value, initdata := none }) = .ok effect ↔
        fromHex? value = fromHex? register) := by
  obtain ⟨inputs, path, file, baseline, regs, hinputs, hpath, hfile, hbaseline, hregs, rfl⟩ :=
    (cmdCompute_eq_ok hmode).mp h
  have hlines := (Computes.registers hmode hinputs hpath hfile hbaseline hregs).onLines
  obtain ⟨raw, -, hraw, hrtmr3⟩ := rtmr3_eq_hex hregs
  refine ⟨regs.asDict, regs.rtmr3, readOutput_outputRegisters hlines.1 hlines.2 _, rfl, ?_⟩
  rw [run, cmdCompute_eq_ok (by exact hmode), hrtmr3, fromHex_hex]
  constructor
  · rintro ⟨inputs', path', file', baseline', regs', hinputs', hpath', hfile', hbaseline', hregs', heffect⟩
    have hcomputes' : Computes host (.tdx { args with rtmr3 := some value, initdata := none }) regs'.asDict :=
      Computes.registers hmode hinputs' hpath' hfile' hbaseline' hregs'
    obtain rfl := hinputs.byValue.mp hinputs'
    obtain rfl := Option.some.inj (hpath.symm.trans hpath')
    obtain rfl := Option.some.inj (hfile.symm.trans hfile')
    obtain rfl := ok_unique hbaseline hbaseline'
    obtain ⟨raw', hgiven, rfl⟩ := (computeAll_givenRtmr3 hregs (some value)).mp hregs'
    have hdict := outputRegisters_inj hlines hcomputes'.onLines (Effect.mk.inj heffect).1
    have hsame : regs.rtmr3 = hex raw' := by simpa [Tdx.ComputedRegisters.asDict] using hdict
    rw [hrtmr3] at hsame
    rw [(Tdx.digestFromHex_eq_ok.mp hgiven).1, hex_injective hsame]
  · intro hvalue
    have hgiven : Tdx.givenRtmr3 (some value) = .ok raw := Tdx.digestFromHex_eq_ok.mpr ⟨hvalue, hraw⟩
    have hsame : regs = { regs with rtmr3 := hex raw } := by rw [← hrtmr3]
    have hregs' := (computeAll_givenRtmr3 hregs (some value)).mpr ⟨raw, hgiven, hsame⟩
    exact ⟨_, path, file, baseline, regs, hinputs.byValue.mpr rfl, hpath, hfile, hbaseline, hregs', rfl⟩

/-- `azure-snp` with PCR 8 given by value. -/
theorem azure_by_value {args : AzureArgs} (hlen : ∀ x, (host.sha256 x).length = AzureSnp.sha256Size)
    (h : run host (.azureSnp args) = .ok effect) :
    ∃ data register, readOutput args.outputFormat effect.stdout = some data ∧ data.get? "pcr8" = some register ∧
      (run host (.azureSnp { args with pcr8 := .pcr8 value }) = .ok effect ↔
        fromHex? value = fromHex? register) := by
  obtain ⟨path, disk, initdata, uki, gpt, pcrs, roothash, hpath, hdisk, hinitdata, huki, hgpt, hpcrs, hroothash,
    rfl⟩ := cmdAzureCompute_eq_ok.mp h
  have hlines := (Computes.pcrs hpath hdisk hinitdata huki hgpt hpcrs hroothash).onLines
  obtain ⟨raw, hpcr8, hraw⟩ := pcr8_eq_hex (AzureSnp.computeAll_eq_ok.mp hpcrs).1
  refine ⟨_, pcrs.pcr8, readOutput_outputRegisters hlines.1 hlines.2 _, get?_pcr8 pcrs roothash, ?_⟩
  rw [run, cmdAzureCompute_eq_ok, hpcr8, fromHex_hex]
  constructor
  · rintro ⟨path', disk', initdata', uki', gpt', pcrs', roothash', hpath', hdisk', hinitdata', huki', hgpt',
      hpcrs', hroothash', heffect⟩
    have hcomputes' : Computes host (.azureSnp { args with pcr8 := .pcr8 value }) (withRoothash pcrs' roothash') :=
      Computes.pcrs hpath' hdisk' hinitdata' huki' hgpt' hpcrs' hroothash'
    obtain rfl := Option.some.inj (hpath.symm.trans hpath')
    obtain rfl := Option.some.inj (hdisk.symm.trans hdisk')
    obtain rfl : uki = uki' := Except.ok.inj (huki.symm.trans huki')
    obtain rfl := ok_unique hgpt hgpt'
    obtain rfl : none = initdata' := Except.ok.inj hinitdata'
    obtain ⟨pcr8, hresolve, rfl⟩ := (computeAll_givenPcr8 hpcrs none (some value)).mp hpcrs'
    obtain ⟨raw', hvalue, -, rfl⟩ := resolvePcr8_given_eq_ok.mp hresolve
    have hdict := outputRegisters_inj hlines hcomputes'.onLines (Effect.mk.inj heffect).1
    have hsame := congrArg (Dict.get? · "pcr8") hdict
    simp only [get?_pcr8, Option.some.injEq, hpcr8] at hsame
    rw [hvalue, hex_injective hsame]
  · intro hvalue
    have hresolve : AzureSnp.resolvePcr8 host.sha256 host.hashNew none (some value) = .ok pcrs.pcr8 :=
      resolvePcr8_given_eq_ok.mpr ⟨raw, hvalue, hraw hlen, hpcr8⟩
    have hsame : pcrs = { pcrs with pcr8 := pcrs.pcr8 } := rfl
    have hpcrs' := (computeAll_givenPcr8 hpcrs none (some value)).mpr ⟨_, hresolve, hsame⟩
    exact ⟨path, disk, none, uki, gpt, pcrs, roothash, hpath, hdisk, rfl, huki, hgpt, hpcrs', hroothash, rfl⟩

/-- **A printed initdata register stands for the document.** Where a command succeeds, the same command with
the register given by value, and no document, has the same output exactly if the value decodes to what the
first output shows, in whatever letters and with whatever blanks it is written. -/
theorem initdata_by_value {inv inv' : Invocation} {name : String} {fmt : OutputFormat}
    (hlen : ∀ x, (host.sha256 x).length = AzureSnp.sha256Size) (hby : ByValue value inv inv' name)
    (hfmt : inv.format? = some fmt) (h : run host inv = .ok effect) :
    ∃ data register, readOutput fmt effect.stdout = some data ∧ data.get? name = some register ∧
      (run host inv' = .ok effect ↔ fromHex? value = fromHex? register) := by
  cases hby with
  | rtmr3 hmode =>
    cases hfmt
    exact tdx_by_value hmode h
  | pcr8 =>
    cases hfmt
    exact azure_by_value hlen h

/-- The register of the document, and the same register by value, in capital letters. -/
theorem initdata_by_value_sample : ∃ effect data register,
    run (podHost unsignedUki) (.tdx (podArgs .text)) = .ok effect ∧ readText effect.stdout = data ∧
    data.get? "rtmr3" = some register ∧
    run (podHost unsignedUki) (.tdx { podArgs .text with rtmr3 := some (register.map Char.toUpper), initdata := none })
      = .ok effect := by
  obtain ⟨raw, hlen, hraw⟩ := initdataRtmr3_podDocument
  obtain ⟨regs, hregs⟩ := Tdx.exists_computeAll_unsignedUki
  obtain ⟨effect, heffect, hread⟩ := run_podArgs hregs hlen hraw .text
  obtain ⟨data, register, hdata, hregister, hiff⟩ :=
    @initdata_by_value _ _ ((hex raw).map Char.toUpper) _ _ _ _ (length_sampleHash 32) (ByValue.rtmr3 rfl) rfl heffect
  obtain rfl := Option.some.inj (hread.symm.trans hdata)
  obtain rfl : hex raw = register := Option.some.inj hregister
  exact ⟨effect, _, hex raw, heffect, Option.some.inj hread, rfl,
    hiff.mpr ((fromHex_toUpper_hex raw).trans (fromHex_hex raw).symm)⟩

end

end CvmMeasure.Cli
