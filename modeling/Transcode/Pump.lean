import Transcode.Run
import Transcode.Session
/-!
# The pump

Between the frames of a run and a running tool stands the pump. It holds at most one piece of input
that the tool has not yet taken, numbers the pieces of the tool's output, and hands them to the
plugins behind the tool. What happens next is up to the tool and the source, so the pump is a
machine that answers events: `Pump.enabled` says which events can happen, `Pump.step` what they do.
A run through a tool is one sequence of events. `Pump.drive` chooses one, with all input before any
output (`Pump.feed`, `Pump.collect`); what holds of a run is stated for every sequence.
-/

set_option autoImplicit false

namespace Transcode

/-- What can happen between a run and its tool. -/
inductive PumpEvent where
  /-- Cancellation was asked for. -/
  | cancel
  /-- The tool takes the piece that waits. -/
  | permit
  /-- The tool takes no more input. -/
  | refused
  /-- The source delivers a message. -/
  | message (m : Except Error Frame)
  /-- The source is at its end. -/
  | endOfInput
  /-- The tool writes. -/
  | output (data : Bytes)
  /-- Reading from the tool fails. -/
  | outputFailed (e : Error)
  /-- The tool closes its output. -/
  | outputClosed

/-- The pump: a run, the piece that waits for the tool with the number of its frame, and what has
happened to the tool's input and output. -/
structure Pump (σ τ : Type) where
  run : Run σ τ
  tool : String
  pending : Option (Nat × Bytes) := none
  /-- Whether more may be sent to the tool. -/
  inputOpen : Bool := true
  /-- Whether the source is at its end. -/
  inputDone : Bool := false
  /-- Whether the tool refused input, so that its output is thrown away. -/
  draining : Bool := false
  /-- The number of the last piece of output. -/
  outputSequence : Nat := 0
  /-- The pieces sent to the tool, the latest first. -/
  sent : List Bytes := []
  /-- The bytes sent to the tool. -/
  sentSize : Nat := 0
  /-- The bytes received from the tool. -/
  received : Nat := 0

/-- Whether a pump goes on, is done (with all input sent or not), or failed. -/
inductive PumpStatus where
  | going
  | done (complete : Bool)
  | failed (e : Error)

namespace Pump

variable {σ τ : Type}

/-- Whether all input was sent. -/
def complete (p : Pump σ τ) : Bool :=
  p.inputDone && p.pending.isNone

/-- Closes the tool's input once the source is at its end and nothing waits. -/
def release (p : Pump σ τ) : Pump σ τ :=
  { p with inputOpen := p.inputOpen && !p.complete }

/-- Whether a piece waits that may be sent. -/
def canSend (p : Pump σ τ) : Bool :=
  !p.draining && p.inputOpen && p.pending.isSome

/-- Whether the source may be asked for a message. -/
def canRead (p : Pump σ τ) : Bool :=
  !p.draining && !p.inputDone && p.pending.isNone

/-- Which events can happen. -/
def enabled (p : Pump σ τ) : PumpEvent → Bool
  | .permit | .refused => p.canSend
  | .message _ | .endOfInput => p.canRead
  | .cancel | .output _ | .outputFailed _ | .outputClosed => true

/-- Takes a message through the plugins before the tool. What comes out waits for the tool, unless
it is empty. -/
def take [Plugin σ] (p : Pump σ τ) (m : Except Error Frame) : Pump σ τ × PumpStatus :=
  match p.run.progress.accept m with
  | .error e => (p, .failed e)
  | .ok (frame, progress) =>
      match { p.run with progress }.applyBefore frame with
      | (run, .error e) => ({ p with run }, .failed e)
      | (run, .ok out) =>
          if out.data = [] then
            let run := { run with progress := run.progress.complete frame.sequence }
            ({ p with run }, .going)
          else ({ p with run, pending := some (frame.sequence, out.data) }, .going)

/-- Takes a piece of output through the plugins after the tool into the sink. -/
def emit [Plugin σ] [Sink τ] (p : Pump σ τ) (data : Bytes) : Pump σ τ × PumpStatus :=
  let p := { p with outputSequence := p.outputSequence + 1, received := p.received + data.length }
  match p.run.applyAfter ⟨p.outputSequence, data⟩ with
  | (run, .error e) => ({ p with run }, .failed e)
  | (run, .ok out) =>
      match run.write out with
      | (run, .error e) => ({ p with run }, .failed e)
      | (run, .ok ()) => ({ p with run }, .going)

/-- Throws a piece of output away. -/
def discard (p : Pump σ τ) (data : Bytes) : Pump σ τ :=
  { p with
    received := p.received + data.length
    run := p.run.log [⟨.debug, s!"{p.tool}: 输入已关闭, 丢弃 {data.length} 字节输出"⟩] }

/-- Sends the piece that waits; its frame is then completed. -/
def send (p : Pump σ τ) : Pump σ τ :=
  match p.pending with
  | none => p
  | some (sequence, data) =>
      { p with
        pending := none, sent := data :: p.sent, sentSize := p.sentSize + data.length
        run := { p.run with progress := p.run.progress.complete sequence } }

/-- What an event does. -/
def step [Plugin σ] [Sink τ] (p : Pump σ τ) : PumpEvent → Pump σ τ × PumpStatus
  | .cancel =>
      ({ p with run := p.run.stopCancelled.1 }, .failed p.run.stopCancelled.2)
  | .permit => (p.send.release, .going)
  | .refused => ({ p with draining := true }, .going)
  | .message m =>
      let (p, status) := p.take m
      (p.release, status)
  | .endOfInput => ({ p with inputDone := true }.release, .going)
  | .output data => if p.draining then (p.discard data, .going) else p.emit data
  | .outputFailed e => (p, .failed (p.run.fail e))
  | .outputClosed => (p, .done (!p.draining && p.complete))

/-- Lets an event happen, unless cancellation was asked for: that comes first. -/
def next [Plugin σ] [Sink τ] (p : Pump σ τ) (event : PumpEvent) : Pump σ τ × PumpStatus :=
  if p.run.cancelled then p.step .cancel else p.step event

/-- The input of the tool. -/
def input (p : Pump σ τ) : Bytes :=
  p.sent.reverse.flatten

/-- Sends what waits, as far as the tool takes it: once its input is broken, the next piece is
refused. -/
def deliver [Plugin σ] [Sink τ] (s : Session) (p : Pump σ τ) : Pump σ τ × PumpStatus :=
  if p.canSend then p.next (if s.takes p.sentSize then .permit else .refused) else (p, .going)

/-- Sends all messages of the source to the tool. -/
def feed [Plugin σ] [Sink τ] (s : Session) (p : Pump σ τ) :
    List (Except Error Frame) → Pump σ τ × PumpStatus
  | [] => p.next .endOfInput
  | m :: rest =>
      match p.next (.message m) with
      | (p, .going) =>
          match p.deliver s with
          | (p, .going) => if p.draining then (p, .going) else p.feed s rest
          | stopped => stopped
      | stopped => stopped

/-- Receives pieces of output, then the event that ends them. -/
def collect [Plugin σ] [Sink τ] (last : PumpEvent) (p : Pump σ τ) :
    List Bytes → Pump σ τ × PumpStatus
  | [] => p.next last
  | data :: rest =>
      match p.next (.output data) with
      | (p, .going) => p.collect last rest
      | stopped => stopped

/-- Feeds a tool and waits for its exit. What its exit means for the run is `Session.cause?`. -/
def drive [Plugin σ] [Sink τ] (s : Session) (run : Run σ τ)
    (messages : List (Except Error Frame)) : Run σ τ × Except Error Unit :=
  match ({ run, tool := s.tool } : Pump σ τ).feed s messages with
  | (p, .failed e) => (p.run, .error e)
  | (p, _) =>
      let (output, ending) := s.behaviour (s.inputRead p.input)
      let silent := ending = .silent
      let last : PumpEvent :=
        if silent then .outputFailed (s.failure (.timeout s.idleTimeout)) else .outputClosed
      let p := if silent then { p with run := p.run.log [s.idleLine] } else p
      match p.collect last (Session.outputChunks output) with
      | (p, .failed e) => (p.run, .error e)
      | (p, .going) => (p.run, .ok ())
      | (p, .done complete) =>
          let fault := s.writeFault? p.sentSize
          (p.run.log (s.endLines ending fault p.sentSize p.received),
            p.run.resultOf (s.cause? ending fault p.received complete))

end Pump

end Transcode
