import Transcode.Pump
import Transcode.Registry
import Transcode.Source
import Transcode.Validation
/-!
# Pipelines

A pipeline is a job with the plugin instances it needs. Running it checks the job and configures
the plugins; only then is the source read. A run that ends well commits the sink, and every other
one aborts it.
-/

set_option autoImplicit false

namespace Transcode

/-- What a run that ended well reports. -/
structure Summary where
  framesIn : Nat
  framesOut : Nat
  bytesIn : Nat
  bytesOut : Nat
  lastSequence : Option Nat
deriving Repr, DecidableEq

namespace Summary

/-- The summary of a run. -/
def ofProgress (p : Progress) (bytesIn : Nat) : Summary :=
  { framesIn := p.framesIn, framesOut := p.framesOut, bytesIn, bytesOut := p.bytesOut
    lastSequence := p.lastIn }

end Summary

/-- How a run ends: its result, the sink it leaves and what was logged. -/
structure Outcome (τ : Type) where
  result : Except Error Summary
  sink : τ
  lines : List LogLine

/-- What a run gets from outside: the files, where to find tools, whether cancellation was asked
for before it starts, and the text that stands for the time it takes. -/
structure Surroundings where
  tree : FileTree
  tools : ToolLocator := {}
  cancelled : Bool := false
  elapsed : String

/-- A job with its plugin instances. -/
structure Pipeline (σ : Type) where
  job : Job
  importer? : Option σ
  exporter : σ

namespace Pipeline

variable {σ τ : Type}

/-- Creates the plugin instances of a job, the one that makes the output first. -/
def create (job : Job) (registry : Registry σ) : Except Error (Pipeline σ) := do
  let exporter ← registry.create job.selected.kind job.selected.name
  match job.importer? with
  | none => return { job, importer? := none, exporter }
  | some d =>
      let importer ← registry.create d.kind d.name
      return { job, importer? := some importer, exporter }

/-- The instances in the order in which frames pass them. -/
def chain (p : Pipeline σ) : List σ :=
  p.importer?.toList ++ [p.exporter]

/-- Divides plugins behind the first one that calls a tool. -/
def divide [Plugin σ] : List σ → List σ × List σ × Option Invocation
  | [] => ([], [], none)
  | s :: rest =>
      match Plugin.invocation s with
      | some call => ([s], rest, some call)
      | none =>
          let (before, after, call) := divide rest
          (s :: before, after, call)

/-- Moves all frames, through a tool if one is called. -/
def drive [Plugin σ] [Sink τ] (around : Surroundings) (timeout : Nat) (run : Run σ τ)
    (call : Option Invocation) (messages : List (Except Error Frame)) :
    Run σ τ × Except Error Unit :=
  match call with
  | none => run.drive messages
  | some call =>
      let started := around.tools.launch around.tree timeout call
      let run := run.log started.lines
      match started.result with
      | .error e => (run, .error (run.fail e))
      | .ok session => Pump.drive session run messages

/-- Commits the sink. -/
def commit [Sink τ] (run : Run σ τ) : Run σ τ × Except Error Unit :=
  let turn := Sink.commit run.sink
  let run := { run with sink := turn.state, lines := run.lines ++ turn.lines }
  (run, turn.result.mapError run.fail)

/-- Aborts the sink after a failure. -/
def abort [Sink τ] (run : Run σ τ) (e : Error) : Run σ τ :=
  let turn := Sink.abort run.sink
  let lines : List LogLine :=
    match turn.result with
    | .ok () => []
    | .error cause => [⟨.warn, s!"清理未完成输出失败: {cause.message}"⟩]
  { run with
    sink := turn.state
    lines := run.lines ++ [⟨.error, s!"转码失败: {e.message}"⟩] ++ turn.lines ++ lines }

/-- Drives a run to its end: all frames, then the plugins, then the sink. -/
def complete [Plugin σ] [Sink τ] (around : Surroundings) (timeout : Nat) (run : Run σ τ)
    (call : Option Invocation) (messages : List (Except Error Frame)) :
    Run σ τ × Except Error Unit :=
  match drive around timeout run call messages with
  | (run, .error e) => (run, .error e)
  | (run, .ok ()) =>
      match run.finish with
      | (run, .error e) => (run, .error e)
      | (run, .ok ()) => commit run

/-- What is logged when a run starts. -/
def startLine (job : Job) : LogLine :=
  let names := " -> ".intercalate (job.chain.map Descriptor.name)
  ⟨.info, s!"开始转码: {job.input} -> {job.effectiveOutput} ({names})"⟩

/-- What is logged when a run ends well. -/
def endLine (s : Summary) (elapsed : String) : LogLine :=
  ⟨.info, s!"转码完成: 输入 {s.framesIn} 帧 / {s.bytesIn} 字节, " ++
    s!"输出 {s.framesOut} 帧 / {s.bytesOut} 字节, 耗时 {elapsed}"⟩

/-- Runs configured plugins. The whole input is read from the tree at the start. An input at the
very path beside the output that the sink empties and fills is therefore beyond this definition. -/
def runConfigured [Plugin σ] [Sink τ] (job : Job) (around : Surroundings) (timeout : Nat)
    (plugins : List σ) (source : Source) (sink : τ) (cancelled : Bool) : Outcome τ :=
  let (before, after, call) := divide plugins
  let feed := source.feed around.tree
  let run : Run σ τ :=
    { before, after, sink, cancelled, lines := startLine job :: feed.lines }
  match complete around timeout run call feed.messages with
  | (run, .ok ()) =>
      let summary := Summary.ofProgress run.progress feed.bytesRead
      { result := .ok summary, sink := run.sink
        lines := run.lines ++ [endLine summary around.elapsed] }
  | (run, .error e) =>
      let run := abort run e
      { result := .error e, sink := run.sink, lines := run.lines }

/-- Runs a pipeline. What fails before the source is read leaves the sink alone. -/
def run [Plugin σ] [Sink τ] (p : Pipeline σ) (around : Surroundings) (source : Source)
    (sink : τ) : Outcome τ :=
  let checked := p.job.validate around.tools around.tree
  match checked.result.bind fun () => p.job.toolTimeout with
  | .error e => { result := .error e, sink, lines := checked.lines }
  | .ok timeout =>
      let configured := Plugin.configureAll p.job.options p.chain
      let lines := checked.lines ++ configured.lines
      match configured.result with
      | .error e => { result := .error e, sink, lines }
      | .ok () =>
          let outcome := runConfigured p.job around timeout configured.state source sink
            (around.cancelled || configured.cancels)
          { outcome with lines := lines ++ outcome.lines }

end Pipeline

end Transcode
