import Transcode.Attempt
import Transcode.Chunk
import Transcode.Cli.Arguments
import Transcode.Cli.Command
import Transcode.Cli.Elapsed
import Transcode.Cli.Plan
import Transcode.Codec.Builtin
import Transcode.Codec.Discard
import Transcode.Codec.Divx
import Transcode.Codec.Passthrough
import Transcode.Codec.Vorbis
import Transcode.Date
import Transcode.Decimal.Binary
import Transcode.Decimal.Natural
import Transcode.Decimal.Numeral
import Transcode.Decimal.Shortest
import Transcode.Deflate
import Transcode.Descriptor
import Transcode.Error
import Transcode.FileTree
import Transcode.FormatTag
import Transcode.Frame
import Transcode.Gzip
import Transcode.Job
import Transcode.Json.Number
import Transcode.Json.Reader
import Transcode.Json.Token
import Transcode.Json.Value
import Transcode.Log
import Transcode.Log.Cleanup
import Transcode.Log.FileName
import Transcode.Log.Settings
import Transcode.Main
import Transcode.MediaType
import Transcode.OptionTable
import Transcode.Ordered
import Transcode.Path
import Transcode.Pipeline
import Transcode.Plugin
import Transcode.Profile
import Transcode.Program
import Transcode.Pump
import Transcode.Registry
import Transcode.Run
import Transcode.Session
import Transcode.Sink
import Transcode.Source
import Transcode.Strip
import Transcode.Text.Ascii
import Transcode.Text.Blank
import Transcode.Text.Terminal
import Transcode.Text.Utf8
import Transcode.ToolLocator
import Transcode.Validation
import Transcode.Word
import Transcode.Proofs.ChunkCodec
import Transcode.Proofs.ChunkGrammar
import Transcode.Proofs.Conveyance
import Transcode.Proofs.FileSink
import Transcode.Proofs.Recording
import Transcode.Proofs.SinkUse
import Transcode.Proofs.AllOrNothing
import Transcode.Proofs.PumpSchedule
import Transcode.Proofs.Schedules
import Transcode.Proofs.PossibleRuns
import Transcode.Proofs.FailureBounds
import Transcode.Proofs.FailureReport
import Transcode.Proofs.Streaming
import Transcode.Proofs.Directories
import Transcode.Proofs.LateFailure
import Transcode.Proofs.Jobs
import Transcode.Proofs.ExitStatus
import Transcode.Proofs.FixedFrames
import Transcode.Proofs.SteadyRun
import Transcode.Proofs.DivxRoundTrip
import Transcode.Proofs.Remuxing
import Transcode.Proofs.DirectoryEntries
import Transcode.Proofs.LogNames
import Transcode.Proofs.LogFates
import Transcode.Proofs.LogCleanup
import Transcode.Proofs.CleanupHistory
import Transcode.Proofs.CleanupSafety
import Transcode.Proofs.DateTexts
import Transcode.Proofs.LogStems
import Transcode.Proofs.Trimming
import Transcode.Proofs.DateSpellings
import Transcode.Proofs.ByteOrder
import Transcode.Proofs.OptionPairs
import Transcode.Proofs.OptionTables
import Transcode.Proofs.OptionValues
import Transcode.Proofs.PluginCalls
import Transcode.Proofs.Requirements
import Transcode.Proofs.Drafts
import Transcode.Proofs.Registrations
import Transcode.Proofs.Ranking
import Transcode.Proofs.Inference
import Transcode.Proofs.Precedence
import Transcode.Proofs.ValidJobs
import Transcode.Proofs.Copying
import Transcode.Proofs.WholeInput
import Transcode.Proofs.ToolExit
import Transcode.Proofs.Calendar
import Transcode.Proofs.Retention
import Transcode.Proofs.DivxLimits
import Transcode.Proofs.SampleCount
import Transcode.Proofs.RefusedOptions
import Transcode.Proofs.NumberLimits
import Transcode.Proofs.ToolArguments
