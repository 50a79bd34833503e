import Transcode.Attempt
import Transcode.Job
import Transcode.ToolLocator
/-!
# Validation

A job is checked before any stream is opened: first its options, then the chain of its plugins, the
output format, the tools and last the options that exclude each other. The first check that fails
decides the failure.
-/

set_option autoImplicit false

namespace Transcode

namespace Job

/-- Whether an option is a generic one or taken by a plugin of the chain. -/
def acceptsOption (job : Job) (name : String) : Bool :=
  OptionTable.generic.contains name || job.chain.any fun d => d.accepts name

/-- Every option is accepted; the first in the order of the names that is not decides. -/
def checkOptionNames (job : Job) : Except Error Unit :=
  match job.options.names.find? fun name => !job.acceptsOption name with
  | some name => .error (.configuration (.optionRefused job.selected.name name))
  | none => .ok ()

/-- The generic options can be read. -/
def checkOptionValues (job : Job) : Except Error Unit := do
  let _ ← job.frameSize
  let _ ← job.toolTimeout
  let _ ← job.options.getBool "raw"
  let _ ← job.options.getBool "audio"
  let _ ← job.options.getBool "keep_partial"

/-- What keeps an importer from standing in front of an exporter. -/
def chainFault? (importer exporter : Descriptor) : Option ChainFault :=
  if importer.kind ≠ .decoder then some (.notDecoder importer.name)
  else if exporter.kind ≠ .encoder then some (.notEncoder exporter.name)
  else if importer.media ≠ exporter.media then
    some (.mediaDiffer importer.media.label exporter.media.label)
  else if importer.isExternal && exporter.isExternal then some .twoTools
  else none

/-- The importer, if there is one, fits the selected plugin. -/
def checkChain (job : Job) : Except Error Unit :=
  match job.importer? with
  | none => .ok ()
  | some importer =>
      match chainFault? importer job.selected with
      | some fault =>
          .error (.validation (.incompatibleChain importer.name job.selected.name fault))
      | none => .ok ()

/-- The selected plugin supports a format. -/
def checkSupported (job : Job) (format : FormatTag) : Except Error Unit :=
  if job.selected.supports format then .ok ()
  else
    .error (.validation
      (.unsupportedFormat job.selected.name format.text job.selected.formatsText))

/-- The output format and the container are supported. -/
def checkFormat (job : Job) : Except Error Unit := do
  let format ← job.requestedFormat
  job.checkSupported format
  match job.options.get? "container" with
  | none => .ok ()
  | some text =>
      let container ← FormatTag.parse text
      job.checkSupported container

/-- The first tool of the chain that is not there, with the plugin that needs it. -/
def missingTool? (job : Job) (available : String → Bool) : Option (String × String) :=
  (job.chain.flatMap fun d => d.tools.map fun tool => (d.name, tool)).find? fun need =>
    !available need.2

/-- The tools of the chain are there. -/
def checkTools (job : Job) (available : String → Bool) : Except Error Unit :=
  match job.missingTool? available with
  | some (plugin, tool) => .error (.validation (.missingTool plugin tool))
  | none => .ok ()

/-- Whether the output is a bare stream, by the nature of the plugin or by the `raw` option. -/
def writesRaw (job : Job) : Except Error Bool :=
  if job.selected.isRawBitstream then .ok true else job.options.flag "raw"

/-- A bare stream has no container, and leaves the audio to a path of its own. -/
def checkExclusive (job : Job) : Except Error Unit := do
  let raw ← job.writesRaw
  if raw && job.options.contains "container" then
    .error (.validation (.conflictingOptions "raw" "container"))
  else if raw && job.selected.media == .video then
    let audio ← job.options.flag "audio"
    if audio && job.rawAudio?.isNone then
      .error (.validation (.missingRawAudio job.selected.name))
    else .ok ()
  else .ok ()

/-- All checks in their order. -/
def check (job : Job) (available : String → Bool) : Except Error Unit := do
  job.checkOptionNames
  job.checkOptionValues
  job.checkChain
  job.checkFormat
  job.checkTools available
  job.checkExclusive

/-- Whether the raw audio path is set for nothing, because the plugin writes a container. -/
def ignoresRawAudio (job : Job) : Bool :=
  job.rawAudio?.isSome && job.selected.media == .video &&
    match job.writesRaw with
    | .ok raw => !raw
    | .error _ => false

/-- What the checks log, by their result. -/
def checkLines (job : Job) : Except Error Unit → List LogLine
  | .error (.validation (.missingTool _ tool)) =>
      let name := ToolLocator.overrideVariable tool
      [⟨.warn, s!"未找到外部工具 '{tool}', 可通过环境变量 {name} 指定路径"⟩]
  | .error _ => []
  | .ok () =>
      (if job.ignoresRawAudio then
        [⟨.warn, s!"插件 '{job.selected.name}' 输出封装流, 忽略 --raw-audio"⟩] else []) ++
      [⟨.debug, s!"任务校验通过: {job.input} -> {job.effectiveOutput} ({job.selected.name})"⟩]

/-- Checks a job against the tools at hand. -/
def validate (job : Job) (tools : ToolLocator) (t : FileTree) : Attempt Unit :=
  let result := job.check (tools.isAvailable t)
  { result, lines := job.checkLines result }

end Job

end Transcode
