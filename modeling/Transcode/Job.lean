import Transcode.Descriptor
import Transcode.OptionTable
/-!
# Jobs

A job is one transcoding from an input file to an output file: the plugin that makes the output, an
optional decoder in front of it, and the options. What the options do not set has a default.
-/

set_option autoImplicit false

namespace Transcode

/-- One transcoding. -/
structure Job where
  input : String
  output : String
  /-- The plugin that decides the output format. -/
  selected : Descriptor
  /-- A decoder in front of the selected plugin. -/
  importer? : Option Descriptor := none
  /-- Where audio goes when it is exported by itself. -/
  rawAudio? : Option String := none
  options : OptionTable := .empty

namespace Job

/-- The bytes of a frame of raw input, unless the options say otherwise. -/
def defaultFrameSize : Nat := 4096

/-- The milliseconds a tool may be idle, unless the options say otherwise. -/
def defaultToolTimeout : Nat := 30000

/-- The path written to: an audio plugin writes to the raw audio path, if there is one. -/
def effectiveOutput (job : Job) : String :=
  match job.rawAudio?, job.selected.media with
  | some path, .audio => path
  | _, _ => job.output

/-- The output format: the `format` option, else the extension of the output path, else the format
the plugin prefers. -/
def requestedFormat (job : Job) : Except Error FormatTag :=
  match job.options.get? "format" with
  | some text => FormatTag.parse text
  | none =>
      match FormatTag.ofPath? job.effectiveOutput with
      | some tag => .ok tag
      | none =>
          match job.selected.preferred? with
          | some tag => .ok tag
          | none => .error (.configuration (.formatUnknown job.selected.name))

/-- A number option that must not be zero. -/
def positive (name : String) (fallback : Nat) : Option Nat → Except Error Nat
  | some 0 => .error (.configuration (.zeroOption name))
  | some n => .ok n
  | none => .ok fallback

/-- The bytes of a frame of raw input. -/
def frameSize (job : Job) : Except Error Nat :=
  (job.options.getWord32 "frame_size").bind (positive "frame_size" defaultFrameSize)

/-- Whether the output of a failed job is kept. -/
def keepPartial (job : Job) : Except Error Bool :=
  job.options.flag "keep_partial"

/-- The milliseconds a tool may be idle. -/
def toolTimeout (job : Job) : Except Error Nat :=
  (job.options.getWord64 "tool_timeout_ms").bind (positive "tool_timeout_ms" defaultToolTimeout)

/-- The plugins in the order in which frames pass them. -/
def chain (job : Job) : List Descriptor :=
  job.importer?.toList ++ [job.selected]

/-- The first plugin frames pass. -/
def first (job : Job) : Descriptor :=
  job.importer?.getD job.selected

end Job

end Transcode
