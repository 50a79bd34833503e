import Transcode.Cli.Arguments
import Transcode.Profile
import Transcode.Registry
import Transcode.Validation
/-!
# From arguments to a job

The command line comes before the profile. Plugins that neither of them names are inferred: the
exporter from the output format, the importer from the extension of the input. Among the plugins
for a format the first whose tools are there is taken.
-/

set_option autoImplicit false

namespace Transcode.Cli

variable {σ : Type}

/-- Whether all tools of a plugin are there. -/
def toolsReady (available : String → Bool) (d : Descriptor) : Bool :=
  d.tools.all available

/-- The exporter for a format: the first with its tools, else the first. -/
def inferExporter (registry : Registry σ) (available : String → Bool) (format : FormatTag) :
    Attempt Descriptor := do
  let found ← .ofLogged (registry.resolveForFormat .encoder format)
  match (found.find? (toolsReady available)).or found.head? with
  | none => .fail (.configuration (.noExporter format.text))
  | some d =>
      .log [⟨.info, s!"按格式 {format.text} 选择导出插件 '{d.name}'"⟩]
      return d

/-- Whether a decoder may stand in front of an exporter. -/
def suits (available : String → Bool) (exporter d : Descriptor) : Bool :=
  d.media = exporter.media && !(exporter.isExternal && d.isExternal) && toolsReady available d

/-- The importer for an input: the first for its format that suits, else none. -/
def inferImporter (registry : Registry σ) (available : String → Bool) (exporter : Descriptor)
    (input : String) : Attempt (Option Descriptor) :=
  match FormatTag.ofPath? input with
  | none => pure none
  | some format => do
      let found ← .ofLogged (registry.resolveForFormat .decoder format)
      match found.find? (suits available exporter) with
      | none =>
          .log [⟨.debug, s!"没有适用于 {format.text} 的导入插件, 输入直接交给导出插件"⟩]
          return none
      | some d =>
          .log [⟨.info, s!"按输入格式 {format.text} 选择导入插件 '{d.name}'"⟩]
          return some d

/-- The options of a job: those of the profile, over them those of the command line. -/
def mergedOptions (arguments : Arguments) (profile : Profile) : Except Error OptionTable := do
  let fromProfile ← profile.optionTable
  let fromWords ← OptionTable.ofPairs arguments.options
  let merged := fromProfile.merge fromWords
  return if arguments.keepPartial then merged.set "keep_partial" "true" else merged

/-- The output format: the `format` option, else the extension of the output. -/
def outputFormat (options : OptionTable) (output : String) : Except Error FormatTag :=
  match options.get? "format" with
  | some text => FormatTag.parse text
  | none =>
      match FormatTag.ofPath? output with
      | some tag => .ok tag
      | none => .error (.configuration (.formatNotInferred output))

/-- What must be given. -/
def demand (fault : ConfigurationFault) : Option String → Except Error String
  | some value => .ok value
  | none => .error (.configuration fault)

/-- The exporter that is named, else the inferred one. -/
def chooseExporter (registry : Registry σ) (available : String → Bool) (options : OptionTable)
    (output : String) : Option String → Attempt Descriptor
  | some name => .quiet (registry.resolve .encoder name)
  | none => do
      let format ← .quiet (outputFormat options output)
      inferExporter registry available format

/-- The importer that is named, else the inferred one. -/
def chooseImporter (registry : Registry σ) (available : String → Bool) (exporter : Descriptor)
    (input : String) : Option String → Attempt (Option Descriptor)
  | some name => .quiet ((registry.resolve .decoder name).map some)
  | none => inferImporter registry available exporter input

/-- The job of a command line. -/
def plan (registry : Registry σ) (tools : ToolLocator) (t : FileTree) (arguments : Arguments) :
    Attempt Job := do
  let profile ← match arguments.profile? with
    | some path => Profile.load t path
    | none => pure {}
  let input ← .quiet (demand .inputMissing arguments.input?)
  let output ← .quiet (demand .outputMissing arguments.output?)
  let options ← .quiet (mergedOptions arguments profile)
  let available := tools.isAvailable t
  let exporter ← chooseExporter registry available options output
    (arguments.exporter?.or profile.exporter?)
  let importer? ← chooseImporter registry available exporter input
    (arguments.importer?.or profile.importer?)
  return {
    input, output, selected := exporter, importer?
    rawAudio? := arguments.rawAudio?.or profile.rawAudio?
    options }

end Transcode.Cli
