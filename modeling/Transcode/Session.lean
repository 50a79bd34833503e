import Transcode.Attempt
import Transcode.Descriptor
import Transcode.ToolLocator
/-!
# Tool sessions

A tool is located, started, fed and read to the end of its output; then its exit decides. Of
several things that went wrong the first of these counts: it does not exit in time, it exits with a
failure, its input could not be written, it wrote nothing.
-/

set_option autoImplicit false

namespace Transcode

/-- A tool that was started. -/
structure Session where
  tool : String
  /-- Whether the tool reads its input at all. -/
  readsInput : Bool
  /-- Whether the tool keeps its output open until it has read its input to the end. -/
  holdsOutput : Bool := true
  /-- What the tool writes for an input, and how it ends. -/
  behaviour : Bytes → Bytes × Ending
  /-- The milliseconds the tool may be idle. -/
  idleTimeout : Nat

namespace Session

/-- The bytes a pipe holds that nobody reads from. -/
def pipeCapacity : Nat := 65536

/-- The bytes read from a tool at once. -/
def readSize : Nat := 65536

/-- A failure of the tool. -/
def failure (s : Session) (f : ToolFailure) : Error :=
  .externalTool s.tool f none

/-- Whether an input of this size can still be written: a tool that reads takes any, one that does
not leaves it in the pipe. -/
def takes (s : Session) (size : Nat) : Bool :=
  s.readsInput || size ≤ pipeCapacity

/-- What the tool reads of an input. -/
def inputRead (s : Session) (input : Bytes) : Bytes :=
  if s.readsInput then input else []

/-- The failure of the writer that fed the tool, if any. -/
def writeFault? (s : Session) (size : Nat) : Option IoError :=
  if s.takes size then none else some .brokenPipe

/-- Cuts the output into what is read at once. -/
def outputChunks (output : Bytes) : List Bytes :=
  if output = [] then []
  else output.take readSize :: outputChunks (output.drop readSize)
termination_by output.length
decreasing_by
  next h =>
    have := List.length_pos_iff.2 h
    simp only [List.length_drop, readSize]
    omega

/-- How a session ends whose tool closed its output. -/
def verdict (s : Session) (ending : Ending) (writeFault : Option IoError) (received : Nat) :
    Except ToolFailure Unit :=
  match ending with
  | .silent | .lingering => .error (.timeout s.idleTimeout)
  | .signalled => .error (.exitStatus none)
  | .exited code =>
      if code ≠ 0 then .error (.exitStatus (some code))
      else
        match writeFault with
        | some cause => .error (.io cause)
        | none => if received = 0 then .error .noOutput else .ok ()

/-- What is logged about a verdict. -/
def verdictLines (s : Session) (sent received : Nat) : Except ToolFailure Unit → List LogLine
  | .ok () => [⟨.debug, s!"{s.tool}: 正常退出, 输入 {sent} 字节, 输出 {received} 字节"⟩]
  | .error (.timeout _) => [⟨.warn, s!"{s.tool}: 等待退出超时, 终止进程"⟩]
  | .error _ => []

/-- Waits for the exit of a tool that closed its output, after `sent` bytes of input. -/
def finish (s : Session) (ending : Ending) (sent received : Nat) : Attempt Unit :=
  let result := s.verdict ending (s.writeFault? sent) received
  { result := result.mapError s.failure, lines := s.verdictLines sent received result }

/-- What breaks a run whose tool closed its output, if anything does: the verdict, and then that not
all input was sent. -/
def cause? (s : Session) (ending : Ending) (writeFault : Option IoError) (received : Nat)
    (complete : Bool) : Option Error :=
  match s.verdict ending writeFault received with
  | .error failure => some (s.failure failure)
  | .ok () => if complete then none else some (s.failure .inputCutShort)

/-- What is logged at the end of a run whose tool closed its output. -/
def endLines (s : Session) (ending : Ending) (writeFault : Option IoError) (sent received : Nat) :
    List LogLine :=
  let verdict := s.verdict ending writeFault received
  s.verdictLines sent received verdict ++
    if verdict.isOk then [⟨.debug, s!"{s.tool}: 共输出 {received} 字节"⟩] else []

/-- What is logged when a tool is silent for too long. -/
def idleLine (s : Session) : LogLine :=
  ⟨.warn, s!"{s.tool}: 超过 {s.idleTimeout} ms 无活动"⟩

/-- All that is received from a tool for an input: the output, and the failure that ended the
receiving, if any. -/
structure Exchange where
  sent : Nat
  output : Bytes
  ending : Ending
  failure? : Option Error

/-- Feeds all input and receives all output. -/
def exchange (s : Session) (input : Bytes) : Exchange :=
  let (output, ending) := s.behaviour (s.inputRead input)
  { sent := input.length, output, ending
    failure? :=
      match ending with
      | .silent => some (s.failure (.timeout s.idleTimeout))
      | _ => none }

/-- The result of one exchange: all output, or the first thing that went wrong. -/
def collect (s : Session) (input : Bytes) : Except Error Bytes :=
  let e := s.exchange input
  match e.failure? with
  | some failure => .error failure
  | none => (s.finish e.ending e.sent e.output.length).result.map fun () => e.output

end Session

namespace ToolLocator

/-- Starts a tool. -/
def launch (l : ToolLocator) (t : FileTree) (idleTimeout : Nat) (call : Invocation) :
    Attempt Session :=
  match l.locate? t call.tool with
  | none => { result := .error (.externalTool call.tool .notFound none) }
  | some path =>
      let arguments := " ".intercalate call.args
      let lines : List LogLine := [⟨.info, s!"启动外部工具: {path} {arguments}"⟩]
      match l.start t call.args path with
      | .error cause => { result := .error (.externalTool call.tool (.spawn cause) none), lines }
      | .ok behaviour =>
          { result := .ok
              { tool := call.tool, readsInput := behaviour.readsInput
                holdsOutput := behaviour.holdsOutput
                behaviour := behaviour.respond call.args, idleTimeout }
            lines }

/-- Runs a tool on an input and gives all of its output. -/
def invoke (l : ToolLocator) (t : FileTree) (idleTimeout : Nat) (call : Invocation)
    (input : Bytes) : Except Error Bytes :=
  (l.launch t idleTimeout call).result.bind fun s => s.collect input

end ToolLocator

end Transcode
