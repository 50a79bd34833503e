import Transcode.Cli.Plan
import Transcode.Codec.Builtin
import Transcode.Log.Cleanup
import Transcode.Pipeline
import Transcode.Text.Terminal
/-!
# The command

A call of the command starts the log and then lists plugins, describes one, or runs a job. Its exit
status is 0, or that of the failure. Log lines go to the console as far as its level lets them;
without a log there are none. The lines in the log itself bear the time and are left out: its file
is opened and not written to. Old logs are cleaned up once, before anything else is done.
-/

set_option autoImplicit false

namespace Transcode.Cli

/-- What a call leaves: its exit status, the lines it printed and the files. -/
structure Report where
  exit : Nat
  stdout : List String := []
  stderr : List String := []
  tree : FileTree

/-- The circumstances of a call: the files, where to find tools, the text for the time that a job
takes, and the circumstances of a clean-up. -/
structure Setting where
  tree : FileTree
  tools : ToolLocator
  elapsed : String
  occasion : Cleanup.Occasion

/-- The surroundings of a run. -/
def Setting.surroundings (setting : Setting) : Surroundings :=
  { tree := setting.tree, tools := setting.tools, elapsed := setting.elapsed }

/-- The version of the program. -/
def version : String := "0.1.0"

/-- All plugins, by kind. -/
def pluginList {σ : Type} (registry : Registry σ) : List String :=
  let section_ (title : String) (kind : PluginKind) : List String :=
    (title ++ ":") :: (registry.list kind).map fun d => "  " ++ d.summary
  section_ "导入 (解码器)" .decoder ++ section_ "导出 (编码器)" .encoder

/-- The plugins of one name, in full. -/
def describe {σ : Type} (registry : Registry σ) (name : String) : Except Error (List String) :=
  let found := [PluginKind.decoder, .encoder].filterMap fun kind =>
    (registry.resolve kind name).toOption
  if found.isEmpty then .error (.pluginNotFound name)
  else .ok (found.flatMap Descriptor.describe)

/-- What is logged about a plugin of a job. -/
def pluginLines (d : Descriptor) : List LogLine :=
  ⟨.info, d.summary⟩ :: d.limitations.map fun note => ⟨.warn, s!"{d.name}: {note}"⟩

/-- What is printed about a job that ended well. -/
def summaryLine (job : Job) (s : Summary) (elapsed : String) : String :=
  s!"{job.input} -> {job.effectiveOutput}: {s.framesIn} 帧 / {s.bytesIn} 字节 -> " ++
    s!"{s.framesOut} 帧 / {s.bytesOut} 字节, 耗时 {elapsed}"

/-- The source, the sink and the plugins of a job. -/
def openJob (registry : Registry Builtin) (t : FileTree) (job : Job) :
    Except Error (Source × FileSink × Pipeline Builtin) := do
  let source ← Source.ofJob job
  let sink ← FileSink.ofJob t job
  let pipeline ← Pipeline.create job registry
  return (source, sink, pipeline)

/-- The registry of all built-in plugins. -/
def builtins : Attempt (Registry Builtin) :=
  let turn := Builtin.registerEvery id Registry.empty
  { result :=
      match turn.result with
      | .ok () => .ok turn.state
      | .error e => .error (.configuration (.other s!"插件注册失败: {e.message}"))
    lines := turn.lines }

/-- The task of a call: lines to be printed, or a job to be run. -/
inductive Task where
  | print (lines : List String)
  | run (job : Job) (source : Source) (sink : FileSink) (pipeline : Pipeline Builtin)

/-- The task that arguments ask for. -/
def task (setting : Setting) (arguments : Arguments) : Attempt Task := do
  let registry ← builtins
  if arguments.list then return .print (pluginList registry)
  match arguments.describe? with
  | some name => return .print (← .quiet (describe registry name))
  | none =>
      let job ← plan registry setting.tools setting.tree arguments
      Attempt.log (job.chain.flatMap pluginLines)
      let (source, sink, pipeline) ← .quiet (openJob registry setting.tree job)
      return .run job source sink pipeline

/-- Carries out the task that arguments ask for; gives the files and the lines to be printed. -/
def execute (setting : Setting) (arguments : Arguments) : FileTree × Attempt (List String) :=
  let asked := task setting arguments
  match asked.result with
  | .error e => (setting.tree, { result := .error e, lines := asked.lines })
  | .ok (.print printed) => (setting.tree, { result := .ok printed, lines := asked.lines })
  | .ok (.run job source sink pipeline) =>
      let outcome := pipeline.run setting.surroundings source sink
      (outcome.sink.tree,
        { result := outcome.result.map fun s => [summaryLine job s setting.elapsed]
          lines := asked.lines ++ outcome.lines })

/-- The weight of the lines the console shows. -/
def consoleLevel (verbosity : Nat) : LogLevel :=
  match (LogSettings.withVerbosity {} verbosity).consoleLevel with
  | some "info" => .info
  | some "debug" => .debug
  | _ => .warn

/-- What the console shows of log lines. -/
def consoleLines (verbosity : Nat) (lines : List LogLine) : List String :=
  (lines.filter fun line => line.shownAt (consoleLevel verbosity)).map fun line =>
    Text.shown line.render

/-- Why there is no log. -/
inductive LogFault where
  | directory (path : String) (cause : IoError)
  | file (path : String) (cause : IoError)
deriving Repr, DecidableEq

/-- The wording of the warning. -/
def LogFault.message : LogFault → String
  | .directory path cause => s!"创建日志目录失败: {path}: {cause.message}"
  | .file path cause => s!"打开日志文件失败: {path}: {cause.message}"

/-- Starts the log: its directory is made, the log of the day is opened, and old logs are cleaned
up. Gives the files and the lines about the clean-up. -/
def startLog (setting : Setting) (settings : LogSettings) :
    FileTree × Except LogFault (List LogLine) :=
  match setting.tree.makeDirectories settings.directory with
  | (tree, .error e) => (tree, .error (.directory settings.directory e))
  | (tree, .ok ()) =>
      let path := LogFile.path settings.directory settings.stem setting.occasion.today
      match tree.openAppend path with
      | .error e => (tree, .error (.file path e))
      | .ok tree =>
          let (tree, result) := Cleanup.runOrdered setting.occasion settings tree
          (tree, .ok (Cleanup.logLines result))

/-- The settings of the log of a call. -/
def logSettings (arguments : Arguments) : LogSettings :=
  LogSettings.withVerbosity { directory := arguments.logDirectory } arguments.verbosity

/-- Runs a call with its arguments. -/
def perform (setting : Setting) (arguments : Arguments) : Report :=
  let (tree, log) := startLog setting (logSettings arguments)
  let (tree, attempt) := execute { setting with tree } arguments
  let warnings : List String :=
    match log with
    | .ok _ => []
    | .error fault => [s!"警告: 日志初始化失败: {fault.message}"]
  let shown (lines : List LogLine) : List String :=
    match log with
    | .ok before => consoleLines arguments.verbosity (before ++ lines)
    | .error _ => []
  match attempt.result with
  | .ok printed =>
      { exit := 0, stdout := printed, stderr := warnings ++ shown attempt.lines, tree }
  | .error e =>
      { exit := e.exitCode
        stderr :=
          warnings ++ shown (attempt.lines ++ [⟨.error, e.message⟩]) ++ [s!"错误: {e.message}"]
        tree }

/-- Runs the command. A mistaken command line changes nothing. -/
def call (setting : Setting) (words : List String) : Report :=
  match Request.ofWords words with
  | .run arguments => perform setting arguments
  | .version => { exit := 0, stdout := [s!"tcode {version}"], tree := setting.tree }
  | .help => { exit := 0, stdout := ["Usage: tcode [OPTIONS]"], tree := setting.tree }
  | .mistaken => { exit := 2, stderr := ["error: invalid arguments"], tree := setting.tree }

end Transcode.Cli
