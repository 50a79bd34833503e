import Transcode.Descriptor
import Transcode.Frame
import Transcode.Log
import Transcode.OptionTable
/-!
# Plugins

A plugin is a machine with a state: it is configured once, takes one frame after another and is
told when the frames are over. Every call yields a new state, also where it fails, so what a failed
call leaves behind is visible. A call may be the moment at which the user asks for the job to be
cancelled; the result of the call says so.
-/

set_option autoImplicit false

namespace Transcode

/-- What one call leaves: its result, the new state, what it logged, and whether cancellation was
asked for meanwhile. -/
structure Turn (σ α : Type) where
  result : Except Error α
  state : σ
  lines : List LogLine := []
  cancels : Bool := false

/-- The operations of plugin instances of type `σ`. What an instance does not define, it does not
support. -/
class Plugin (σ : Type) where
  descriptor : σ → Descriptor
  configure : OptionTable → σ → Turn σ Unit := fun _ s => { result := .ok (), state := s }
  encode : Frame → σ → Turn σ Frame := fun _ s =>
    { result := .error (.unsupported (.encode (descriptor s).name)), state := s }
  decode : Frame → σ → Turn σ Frame := fun _ s =>
    { result := .error (.unsupported (.decode (descriptor s).name)), state := s }
  invocation : σ → Option Invocation := fun _ => none
  finish : σ → Turn σ Unit := fun s => { result := .ok (), state := s }

namespace Plugin

variable {σ : Type} [Plugin σ]

/-- Hands a frame to `encode` or `decode`, as the kind of the plugin demands. -/
def process (frame : Frame) (s : σ) : Turn σ Frame :=
  match (descriptor s).kind with
  | .encoder => encode frame s
  | .decoder => decode frame s

/-- Hands a frame through a list of plugins; the first failure ends it. -/
def processAll (frame : Frame) : List σ → Turn (List σ) Frame
  | [] => { result := .ok frame, state := [] }
  | p :: rest =>
      let turn := process frame p
      match turn.result with
      | .error e =>
          { result := .error e, state := turn.state :: rest, lines := turn.lines,
            cancels := turn.cancels }
      | .ok out =>
          let after := processAll out rest
          { result := after.result, state := turn.state :: after.state,
            lines := turn.lines ++ after.lines, cancels := turn.cancels || after.cancels }

/-- Configures a list of plugins in their order; the first failure ends it. -/
def configureAll (options : OptionTable) : List σ → Turn (List σ) Unit
  | [] => { result := .ok (), state := [] }
  | p :: rest =>
      let turn := configure options p
      match turn.result with
      | .error e =>
          { result := .error e, state := turn.state :: rest, lines := turn.lines,
            cancels := turn.cancels }
      | .ok () =>
          let after := configureAll options rest
          { result := after.result, state := turn.state :: after.state,
            lines := turn.lines ++ after.lines, cancels := turn.cancels || after.cancels }

/-- Finishes a list of plugins; the first failure ends it. -/
def finishAll : List σ → Turn (List σ) Unit
  | [] => { result := .ok (), state := [] }
  | p :: rest =>
      let turn := finish p
      match turn.result with
      | .error e =>
          { result := .error e, state := turn.state :: rest, lines := turn.lines,
            cancels := turn.cancels }
      | .ok () =>
          let after := finishAll rest
          { result := after.result, state := turn.state :: after.state,
            lines := turn.lines ++ after.lines, cancels := turn.cancels || after.cancels }

end Plugin

/-- Plugins of two sources used side by side. -/
instance instPluginSum {σ τ : Type} [Plugin σ] [Plugin τ] : Plugin (σ ⊕ τ) where
  descriptor
    | .inl s => Plugin.descriptor s
    | .inr t => Plugin.descriptor t
  configure options
    | .inl s => let r := Plugin.configure options s; { r with state := .inl r.state }
    | .inr t => let r := Plugin.configure options t; { r with state := .inr r.state }
  encode frame
    | .inl s => let r := Plugin.encode frame s; { r with state := .inl r.state }
    | .inr t => let r := Plugin.encode frame t; { r with state := .inr r.state }
  decode frame
    | .inl s => let r := Plugin.decode frame s; { r with state := .inl r.state }
    | .inr t => let r := Plugin.decode frame t; { r with state := .inr r.state }
  invocation
    | .inl s => Plugin.invocation s
    | .inr t => Plugin.invocation t
  finish
    | .inl s => let r := Plugin.finish s; { r with state := .inl r.state }
    | .inr t => let r := Plugin.finish t; { r with state := .inr r.state }

end Transcode
