import CvmMeasure.Binary.LittleEndian
import CvmMeasure.Binary.Window
import CvmMeasure.Binary.PrefixCode
import CvmMeasure.Python.Exceptions
import CvmMeasure.Python.Text
import CvmMeasure.Python.Dict
import CvmMeasure.Hash.Chain
import CvmMeasure.Tcg.Cursor
import CvmMeasure.Tcg.EventLog
import CvmMeasure.Tcg.Grammar
import CvmMeasure.Tcg.DigestSizes
import CvmMeasure.Tcg.ParseEvents
import CvmMeasure.Tcg.Padding
import CvmMeasure.AzureSnp.EventLog
import CvmMeasure.Tdx.Ccel
import CvmMeasure.Tdx.Rtmr
import CvmMeasure.Tdx.CcelTruncation
import CvmMeasure.AzureSnp.Replay
import CvmMeasure.Pe.Image
import CvmMeasure.ReplayCoverage
import CvmMeasure.Pe.Authenticode
import CvmMeasure.Pe.Uki
import CvmMeasure.Python.Hex
import CvmMeasure.Python.Unicode
import CvmMeasure.Tdx.Guid
import CvmMeasure.Tdx.Metadata
import CvmMeasure.Tdx.Mrtd
import CvmMeasure.Tdx.Baseline
import CvmMeasure.Tdx.Uefi
import CvmMeasure.AzureSnp.Registers
import CvmMeasure.Tdx.Registers
import CvmMeasure.Tdx.RegistersOutcome
import CvmMeasure.SectionBinding
import CvmMeasure.Pe.Locality
import CvmMeasure.Pe.Coverage
import CvmMeasure.StubMeasurement
import CvmMeasure.Binary.Chunks
import CvmMeasure.Tdx.MrtdPages
import CvmMeasure.Tdx.MrtdStream
import CvmMeasure.Tdx.Extraction
import CvmMeasure.Tdx.Rtmr0Slots
import CvmMeasure.Tdx.Rtmr0Agreement
import CvmMeasure.Tdx.Rtmr0Supported
import CvmMeasure.Range.Ascending
import CvmMeasure.Tdx.UnacceptedMemory
import CvmMeasure.Tdx.RamLayout
import CvmMeasure.Tdx.MrtdTopology
import CvmMeasure.Binary.Patch
import CvmMeasure.Pe.HeaderReads
import CvmMeasure.Range.Positions
import CvmMeasure.Pe.Spans
import CvmMeasure.Pe.Refusals
import CvmMeasure.Pe.Signing
import CvmMeasure.Pe.SectionOrder
import CvmMeasure.Tdx.BaselineCoverage
import CvmMeasure.Tdx.BaselineFill
import CvmMeasure.Tdx.HandoverBlock
import CvmMeasure.Tdx.GuidTable
import CvmMeasure.Tdx.FirmwareImage
import CvmMeasure.Sequence.Interleaving
import CvmMeasure.ReplayFold
import CvmMeasure.Tdx.Rtmr0Interleaving
import CvmMeasure.Disk.Gpt
import CvmMeasure.Disk.GptLayout
import CvmMeasure.Python.Outcome
import CvmMeasure.Tdx.MrtdOutcome
import CvmMeasure.Tdx.MrtdRefusals
import CvmMeasure.Python.Lines
import CvmMeasure.Toml.Syntax
import CvmMeasure.Toml.LineStarts
import CvmMeasure.Initdata.Algorithm
import CvmMeasure.Sequence.Runs
import CvmMeasure.Initdata.Declared
import CvmMeasure.Python.Refusal
import CvmMeasure.Sequence.Trace
import CvmMeasure.Tdx.VariableData
import CvmMeasure.Tcg.CursorRuns
import CvmMeasure.AzureSnp.ComputeAll
import CvmMeasure.Hash.Commitment
import CvmMeasure.Python.Words
import CvmMeasure.AzureSnp.MeasuredBoot
import CvmMeasure.SectionReads
import CvmMeasure.Tdx.MeasuredTd
import CvmMeasure.Json.Parse
import CvmMeasure.Json.Value
import CvmMeasure.Json.RoundTrip
import CvmMeasure.Python.TextFile
import CvmMeasure.Tdx.BaselineFile
import CvmMeasure.Disk.Archive
import CvmMeasure.Disk.ArchiveContent
import CvmMeasure.Disk.GptLocality
import CvmMeasure.Cli.Commands
import CvmMeasure.Cli.Output
import CvmMeasure.Tdx.Initdata
import CvmMeasure.Cli.Pipeline
import CvmMeasure.Cli.Readable
import CvmMeasure.Cli.Replays
import CvmMeasure.Binary.Memory
import CvmMeasure.Pe.Loader
import CvmMeasure.Failures
import CvmMeasure.PartitionBinding
import CvmMeasure.Tdx.BaselineLocality
import CvmMeasure.Tdx.BaselineRefusals
import CvmMeasure.Cli.Comparison
import CvmMeasure.Pe.SignedContent
import CvmMeasure.SignedRegisters
import CvmMeasure.Cli.InitdataOutputs
import CvmMeasure.InitdataBinding
