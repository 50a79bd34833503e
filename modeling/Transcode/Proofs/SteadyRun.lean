import Transcode.Proofs.Conveyance
import Transcode.Proofs.FailureReport
import Transcode.Proofs.FileSink
import Transcode.Proofs.Streaming
/-!
# Steady runs, and runs that stop at once

`Plugin.Steady` gives the image of every good frame under a list of plugins. A run of such plugins
from a source of good frames into a file that can be written succeeds, and the file holds the images
(`Pipeline.run_of_steady`). A source that fails behind such frames ends the run with the number of
the last one (`Pipeline.run_of_steady_failure`), and a run whose first message stops it fails
(`Pipeline.run_of_stop`).
-/

set_option autoImplicit false

namespace Transcode

/-- Plugins that turn the bytes of every good frame into others and are then ready for the next one.
They call no tool and take the end of the frames. -/
structure Plugin.Steady {σ : Type} [Plugin σ] (ready : List σ → Prop) (good : Bytes → Prop)
    (turned : Bytes → Bytes) : Prop where
  passes : ∀ plugins frame, ready plugins → good frame.data →
    ∃ plugins', Passes frame plugins (frame.withData (turned frame.data)) plugins' false ∧
      ready plugins'
  inProcess : ∀ plugins, ready plugins → ∀ s ∈ plugins, invocation s = none
  finishes : ∀ plugins, ready plugins → (finishAll plugins).result = .ok ()

theorem Frame.length_number (start : Nat) (payloads : List Bytes) :
    (number start payloads).length = payloads.length := by
  induction payloads generalizing start with
  | nil => rfl
  | cons data rest ih => rw [number, List.length_cons, ih, List.length_cons]

namespace FileSink

/-- The medium grants everything, and the part file is open or can be created. -/
structure Accepts (s : FileSink) : Prop where
  granting : s.medium = {}
  creates : s.buffer = none → ∃ tree, s.tree.create s.partPath = .ok tree

theorem write_of_accepts {s : FileSink} (h : s.Accepts) (frame : Frame) :
    (Sink.write frame s).result = .ok () ∧ (Sink.write frame s).cancels = false ∧
      (Sink.write frame s).state.Accepts := by
  obtain ⟨file, hopened, hmedium⟩ : ∃ file, s.opened = .ok file ∧ file.medium = {} := by
    cases hbuffer : s.buffer with
    | some buffer => exact ⟨s, by rw [opened, hbuffer], h.granting⟩
    | none =>
        obtain ⟨tree, hcreate⟩ := h.creates hbuffer
        refine ⟨{ s with tree, buffer := some [] }, ?_, h.granting⟩
        rw [opened, hbuffer]
        simp only [create, h.granting, Medium.grant, hcreate]
        rfl
  have hwrite : Sink.write frame s = FileSink.write frame s := rfl
  have hgranted : file.medium.nextWrite = none := by
    rw [hmedium]
    rfl
  rw [hwrite, FileSink.write, hopened]
  simp only [FileSink.take, hgranted]
  refine ⟨rfl, trivial, ⟨?_, fun hnone => absurd hnone (Option.some_ne_none _)⟩⟩
  rw [hmedium]
  rfl

end FileSink

/-- At the end of the input, with plugins and a sink that take it, a run succeeds. -/
theorem Station.Ends.of_success {σ τ : Type} [Plugin σ] [Sink τ] {s : Station σ τ} {left final : τ}
    {summary : Summary} {result : Except Error Summary}
    (h : Ends s .endOfInput left summary result final)
    (finished : (Plugin.finishAll s.plugins).result = .ok ())
    (taken : (Sink.commit s.sink).result = .ok ()) :
    result = .ok summary ∧ final = (Sink.commit s.sink).state := by
  cases h with
  | broken failure => cases failure
  | unfinished _ refused => cases finished.symm.trans refused
  | uncommitted _ _ refused => cases taken.symm.trans refused
  | committed => exact ⟨rfl, rfl⟩

variable {σ : Type} [Plugin σ] {ready : List σ → Prop} {good : Bytes → Prop}
  {turned : Bytes → Bytes}

/-- Good frames are all moved, each to its image. -/
theorem Station.exists_movesAll (steady : Plugin.Steady ready good turned) (payloads : List Bytes)
    (next : Nat) (s : Station σ FileSink) (isReady : ready s.plugins) (accepts : s.sink.Accepts)
    (calm : s.cancelled = false) (above : ∀ previous, s.last = some previous → previous < next)
    (all : ∀ payload ∈ payloads, good payload) :
    ∃ station : Station σ FileSink,
      s.MovesAll (Frame.number next payloads) (Frame.number next (payloads.map turned)) station ∧
      ready station.plugins ∧ station.cancelled = false := by
  induction payloads generalizing next s with
  | nil => exact ⟨s, .nil s, isReady, calm⟩
  | cons data rest ih =>
      obtain ⟨plugins, passes, hready⟩ :=
        steady.passes s.plugins ⟨next, data⟩ isReady (all data List.mem_cons_self)
      obtain ⟨taken, hcancels, haccepts⟩ := FileSink.write_of_accepts accepts ⟨next, turned data⟩
      have precedes : s.Precedes ⟨next, data⟩ := above
      have moves : s.Moves ⟨next, data⟩ ⟨next, turned data⟩
          ⟨plugins, (Sink.write ⟨next, turned data⟩ s.sink).state, some next,
            (Sink.write ⟨next, turned data⟩ s.sink).cancels⟩ := .mk calm precedes passes taken
      rw [hcancels] at moves
      have above' : ∀ previous, some next = some previous → previous < next + 1 := by
        rintro _ ⟨⟩
        exact Nat.lt_succ_self next
      obtain ⟨station, movesAll, hlast⟩ := ih (next + 1)
        ⟨plugins, (Sink.write ⟨next, turned data⟩ s.sink).state, some next, false⟩ hready
          haccepts rfl
        above' fun payload h => all payload (List.mem_cons_of_mem _ h)
      exact ⟨station, .cons moves movesAll, hlast⟩

namespace Pipeline

variable {τ : Type} [Sink τ] {p : Pipeline σ} {around : Surroundings} {timeout : Nat}
  {source : Source}

/-- A run without a tool ends as the frames that were moved and the reason to stop demand. -/
theorem ends_of_movesAll (prepared : p.prepared around = .ok timeout)
    (inProcess : ∀ s ∈ p.configured, Plugin.invocation s = none) {sink left : τ}
    {frames images : List Frame} {rest : List (Except Error Frame)} {station : Station σ τ}
    {stop : Stop}
    (messages : (source.feed around.tree).messages = frames.map .ok ++ rest)
    (moves : Station.MovesAll ⟨p.configured, sink, none, p.cancelledEarly around⟩ frames
      images station)
    (stops : station.Stops rest stop left) :
    station.Ends stop left
      { framesIn := frames.length, framesOut := images.length
        bytesIn := (source.feed around.tree).bytesRead
        bytesOut := (images.flatMap Frame.data).length
        lastSequence := frames.getLast?.map Frame.sequence }
      (p.run around source sink).result (p.run around source sink).sink := by
  obtain ⟨hresult, hsink⟩ := run_of_prepared prepared source sink
  obtain ⟨_, _, _, _, _, _, hmessages, hmoves, hstops, hends⟩ :=
    runConfigured_conveys p.job around timeout p.configured source sink (p.cancelledEarly around)
      inProcess
  rw [hresult, hsink]
  obtain ⟨rfl, rfl, rfl, rfl, rfl, rfl⟩ :=
    moves.unique stops hmoves hstops (messages.symm.trans hmessages)
  exact hends

/-- A run of steady plugins over good frames, into a file that can be written, moves all of them and
commits the sink that took what was made of them. -/
theorem exists_takes_of_steady (steady : Plugin.Steady ready good turned)
    (prepared : p.prepared around = .ok timeout) (isReady : ready p.configured)
    (calm : p.cancelledEarly around = false) {payloads : List Bytes}
    (messages : (source.feed around.tree).messages = (Frame.number 1 payloads).map .ok)
    (all : ∀ payload ∈ payloads, good payload) (sink : FileSink) {beside output : FileTree}
    (closed : sink.buffer = none) (granting : sink.medium = {})
    (hpart : sink.tree.create sink.partPath = .ok beside)
    (hpath : sink.tree.create sink.path = .ok output) :
    ∃ last, Sink.Takes sink (Frame.number 1 (payloads.map turned)) last ∧
      (Sink.commit last).result = .ok () ∧
      (p.run around source sink).sink = (Sink.commit last).state ∧
      (p.run around source sink).result = .ok
        { framesIn := payloads.length, framesOut := payloads.length
          bytesIn := (source.feed around.tree).bytesRead
          bytesOut := (payloads.flatMap turned).length
          lastSequence := (Frame.number 1 payloads).getLast?.map Frame.sequence } := by
  obtain ⟨station, moves, hready, hcalm⟩ := Station.exists_movesAll steady payloads 1
    ⟨p.configured, sink, none, p.cancelledEarly around⟩ isReady ⟨granting,
      fun _ => ⟨beside, hpart⟩⟩ calm nofun
    all
  have taken := FileSink.commit_ok_of_takes moves.takes closed granting hpart hpath
  have ends := ends_of_movesAll prepared (steady.inProcess _ isReady)
    (messages.trans (List.append_nil _).symm) moves (.endOfInput hcalm)
  obtain ⟨hresult, hsink⟩ := ends.of_success (steady.finishes _ hready) taken
  rw [Frame.length_number, Frame.length_number, List.length_map,
    Frame.flatMap_data_number] at hresult
  exact ⟨station.sink, moves.takes, taken, hsink, hresult⟩

/-- **Steady plugins turn the frames of the source into the output.** If all frames are good and
files can be created at the output path and beside it, the run succeeds, every frame comes out, and
the output holds the concatenated images. Nothing else changes. -/
theorem run_of_steady (steady : Plugin.Steady ready good turned)
    (prepared : p.prepared around = .ok timeout) (isReady : ready p.configured)
    (calm : p.cancelledEarly around = false) {payloads : List Bytes}
    (messages : (source.feed around.tree).messages = (Frame.number 1 payloads).map .ok)
    (all : ∀ payload ∈ payloads, good payload) (sink : FileSink) {beside output : FileTree}
    (closed : sink.buffer = none) (granting : sink.medium = {})
    (hpart : sink.tree.create sink.partPath = .ok beside)
    (hpath : sink.tree.create sink.path = .ok output) :
    let outcome := p.run around source sink
    (∃ summary, outcome.result = .ok summary ∧ summary.framesIn = payloads.length ∧
      summary.framesOut = payloads.length ∧
      summary.bytesIn = (source.feed around.tree).bytesRead) ∧
    sink.tree.AgreesBut [sink.path, sink.partPath] outcome.sink.tree ∧
    ∃ mode, outcome.sink.tree.stat sink.path = .ok (.file (payloads.flatMap turned) mode) := by
  intro outcome
  obtain ⟨last, takes, taken, hsink, hresult⟩ :=
    exists_takes_of_steady steady prepared isReady calm messages all sink closed granting
      hpart hpath
  obtain ⟨agrees, hstat, _⟩ := FileSink.commit_of_takes takes closed taken
  rw [← hsink] at agrees hstat
  rw [Frame.flatMap_data_number] at hstat
  exact ⟨⟨_, hresult, rfl, rfl, rfl⟩, agrees, hstat⟩

/-- A source that fails behind good frames makes the run fail with its failure and the last frame.
-/
theorem run_of_steady_failure (steady : Plugin.Steady ready good turned)
    (prepared : p.prepared around = .ok timeout) (isReady : ready p.configured)
    (calm : p.cancelledEarly around = false) {payloads : List Bytes} {e : Error}
    (messages : (source.feed around.tree).messages = (Frame.number 1 payloads).map .ok ++
      [.error e])
    (all : ∀ payload ∈ payloads, good payload) (sink : FileSink) {beside : FileTree}
    (granting : sink.medium = {}) (hpart : sink.tree.create sink.partPath = .ok beside) :
    (p.run around source sink).result =
      .error (e.toJobFailure (Pump.lastNumber (Frame.number 1 payloads))) := by
  obtain ⟨station, moves, -, hcalm⟩ := Station.exists_movesAll steady payloads 1
    ⟨p.configured, sink, none, p.cancelledEarly around⟩ isReady ⟨granting, fun _ => ⟨beside, hpart⟩⟩
      calm nofun all
  have ends :=
    ends_of_movesAll prepared (steady.inProcess _ isReady) messages moves (.source e [] hcalm)
  have hlast : station.last = Pump.lastNumber (Frame.number 1 payloads) :=
    moves.last_eq.trans Option.or_none
  apply (ends.of_failure _).1
  rw [hlast]
  rfl

/-- A run that is stopped by its first message, or before it. -/
theorem run_of_stop (prepared : p.prepared around = .ok timeout)
    (inProcess : ∀ s ∈ p.configured, Plugin.invocation s = none)
    {messages : List (Except Error Frame)}
    (feed : (source.feed around.tree).messages = messages) {sink left : τ} {stop : Stop} {e : Error}
    (stops : Station.Stops ⟨p.configured, sink, none, p.cancelledEarly around⟩ messages stop left)
    (failure : stop.failure? none = some e) : (p.run around source sink).result = .error e := by
  have ends :=
    ends_of_movesAll prepared inProcess (feed.trans (List.nil_append _).symm) (.nil _) stops
  exact (ends.of_failure failure).1

end Pipeline

end Transcode
