import Transcode.Sink
/-!
# Runs

A run moves messages of a source through plugins into a sink. It counts what passes, checks that
the sequence numbers increase, and knows the last frame that was completed, so that every failure
can name it. Cancellation is looked at before each message and before the end of the input.
-/

set_option autoImplicit false

namespace Transcode

/-- The frames and bytes that have passed. The counts and the sequence numbers are natural numbers
in place of words of 64 bits; the two agree below `2 ^ 64`, and overflow is not modelled. -/
structure Progress where
  framesIn : Nat := 0
  framesOut : Nat := 0
  bytesOut : Nat := 0
  /-- The sequence number of the last frame taken from the source. -/
  lastIn : Option Nat := none
  /-- The sequence number of the last frame completed. -/
  lastDone : Option Nat := none
deriving Repr, DecidableEq

namespace Progress

/-- Takes a message: a failure ends the run, and so does a number that does not increase. -/
def accept (p : Progress) : Except Error Frame → Except Error (Frame × Progress)
  | .error e => .error (e.toJobFailure p.lastDone)
  | .ok frame =>
      let taken := { p with framesIn := p.framesIn + 1, lastIn := some frame.sequence }
      match p.lastIn with
      | none => .ok (frame, taken)
      | some previous =>
          if frame.sequence ≤ previous then
            .error (.pipeline (.outOfOrder previous frame.sequence) p.lastDone)
          else .ok (frame, taken)

/-- Counts a frame written. -/
def wrote (p : Progress) (size : Nat) : Progress :=
  { p with framesOut := p.framesOut + 1, bytesOut := p.bytesOut + size }

/-- Notes a frame as completed. -/
def complete (p : Progress) (sequence : Nat) : Progress :=
  { p with lastDone := some sequence }

end Progress

/-- A run under way: the plugins before and after the external tool (all of them before, where there
is none), the sink, and what has been logged. -/
structure Run (σ τ : Type) where
  before : List σ
  after : List σ := []
  sink : τ
  progress : Progress := {}
  cancelled : Bool := false
  lines : List LogLine := []

namespace Run

variable {σ τ : Type}

/-- Adds log lines. -/
def log (run : Run σ τ) (lines : List LogLine) : Run σ τ :=
  { run with lines := run.lines ++ lines }

/-- What a failure is for a run: the failure with the last frame completed. -/
def fail (run : Run σ τ) (e : Error) : Error :=
  e.toJobFailure run.progress.lastDone

/-- The result of a run that a cause breaks off, if there is one. -/
def resultOf (run : Run σ τ) : Option Error → Except Error Unit
  | none => .ok ()
  | some cause => .error (run.fail cause)

/-- The end of a cancelled run. -/
def stopCancelled (run : Run σ τ) : Run σ τ × Error :=
  (run.log [⟨.warn, "任务被取消"⟩], .cancelled run.progress.lastDone)

/-- Hands a frame to the plugins before the tool. -/
def applyBefore [Plugin σ] (run : Run σ τ) (frame : Frame) : Run σ τ × Except Error Frame :=
  let turn := Plugin.processAll frame run.before
  let run := { run with
    before := turn.state, cancelled := run.cancelled || turn.cancels,
    lines := run.lines ++ turn.lines }
  (run, turn.result.mapError run.fail)

/-- Hands a frame to the plugins after the tool. -/
def applyAfter [Plugin σ] (run : Run σ τ) (frame : Frame) : Run σ τ × Except Error Frame :=
  let turn := Plugin.processAll frame run.after
  let run := { run with
    after := turn.state, cancelled := run.cancelled || turn.cancels,
    lines := run.lines ++ turn.lines }
  (run, turn.result.mapError run.fail)

/-- Writes a frame to the sink. -/
def write [Sink τ] (run : Run σ τ) (frame : Frame) : Run σ τ × Except Error Unit :=
  let turn := Sink.write frame run.sink
  let run := { run with
    sink := turn.state, cancelled := run.cancelled || turn.cancels,
    lines := run.lines ++ turn.lines }
  match turn.result with
  | .error e => (run, .error (run.fail e))
  | .ok () => ({ run with progress := run.progress.wrote frame.size }, .ok ())

/-- Takes one message through all plugins into the sink. -/
def step [Plugin σ] [Sink τ] (run : Run σ τ) (message : Except Error Frame) :
    Run σ τ × Except Error Unit :=
  match run.progress.accept message with
  | .error e => (run, .error e)
  | .ok (frame, progress) =>
      match { run with progress }.applyBefore frame with
      | (run, .error e) => (run, .error e)
      | (run, .ok out) =>
          match run.write out with
          | (run, .error e) => (run, .error e)
          | (run, .ok ()) =>
              ({ run with progress := run.progress.complete frame.sequence }, .ok ())

/-- Takes all messages in their order. -/
def drive [Plugin σ] [Sink τ] (run : Run σ τ) :
    List (Except Error Frame) → Run σ τ × Except Error Unit
  | [] =>
      if run.cancelled then (run.stopCancelled.1, .error run.stopCancelled.2) else (run, .ok ())
  | message :: rest =>
      if run.cancelled then (run.stopCancelled.1, .error run.stopCancelled.2)
      else
        match run.step message with
        | (run, .error e) => (run, .error e)
        | (run, .ok ()) => run.drive rest

/-- Finishes all plugins. -/
def finish [Plugin σ] (run : Run σ τ) : Run σ τ × Except Error Unit :=
  let first := Plugin.finishAll run.before
  let run := { run with before := first.state, lines := run.lines ++ first.lines }
  match first.result with
  | .error e => (run, .error (run.fail e))
  | .ok () =>
      let second := Plugin.finishAll run.after
      let run := { run with after := second.state, lines := run.lines ++ second.lines }
      (run, second.result.mapError run.fail)

end Run

end Transcode
