import Transcode.Proofs.Passage
import Transcode.Proofs.Preparation
/-!
# Runs without a tool

A run that calls no tool is described without its loop. A `Station` is the state between two
messages: the plugins, the sink, the number of the last frame and whether cancellation was
requested. `Moves` takes one frame from station to station, `Stops` names the reason for which no
further message is taken, and `Ends` gives the result and the sink that is left.
`Run.exists_moves_drive` shows that the loop moves the frames up to the first such reason;
`Pipeline.run_conveys` is the same for a whole run.
-/

set_option autoImplicit false

namespace Transcode

/-- The state of a run between two messages. -/
structure Station (σ τ : Type) where
  plugins : List σ
  sink : τ
  /-- The number of the last frame moved. -/
  last : Option Nat
  cancelled : Bool

/-- The reasons for which a run takes no further message. -/
inductive Stop where
  | endOfInput
  | cancelled
  /-- The source failed. -/
  | source (e : Error)
  /-- A number did not increase. -/
  | order (previous next : Nat)
  /-- A plugin refused a frame. -/
  | plugin (e : Error)
  /-- The sink refused a frame. -/
  | sink (e : Error)

namespace Stop

/-- The report of a stop after the frame numbered `last`. The end of the input is no failure. -/
def failure? (last : Option Nat) : Stop → Option Error
  | endOfInput => none
  | cancelled => some (.cancelled last)
  | source e | plugin e | sink e => some (e.toJobFailure last)
  | order previous next => some (.pipeline (.outOfOrder previous next) last)

end Stop

namespace Station

variable {σ τ : Type} [Plugin σ] [Sink τ]

/-- A frame may come next: its number is above the last one. -/
def Precedes (s : Station σ τ) (frame : Frame) : Prop :=
  ∀ previous, s.last = some previous → previous < frame.sequence

/-- One frame passes the plugins into the sink. -/
inductive Moves : Station σ τ → Frame → Frame → Station σ τ → Prop where
  | mk {s : Station σ τ} {frame image : Frame} {plugins : List σ} {asked : Bool}
      (calm : s.cancelled = false) (precedes : s.Precedes frame)
      (passes : Plugin.Passes frame s.plugins image plugins asked)
      (taken : (Sink.write image s.sink).result = .ok ()) :
      Moves s frame image
        { plugins, sink := (Sink.write image s.sink).state, last := some frame.sequence
          cancelled := asked || (Sink.write image s.sink).cancels }

/-- Movement of a list of frames. -/
inductive MovesAll : Station σ τ → List Frame → List Frame → Station σ τ → Prop where
  | nil (s : Station σ τ) : MovesAll s [] [] s
  | cons {s middle last : Station σ τ} {frame image : Frame} {frames images : List Frame}
      (first : Moves s frame image middle) (rest : MovesAll middle frames images last) :
      MovesAll s (frame :: frames) (image :: images) last

/-- The reason for which none of the messages that are left is taken, and the sink as it is then. A
request for cancellation comes before all others. -/
inductive Stops : Station σ τ → List (Except Error Frame) → Stop → τ → Prop where
  | cancelled {s : Station σ τ} (messages : List (Except Error Frame))
      (asked : s.cancelled = true) : Stops s messages .cancelled s.sink
  | endOfInput {s : Station σ τ} (calm : s.cancelled = false) : Stops s [] .endOfInput s.sink
  | source {s : Station σ τ} (e : Error) (rest : List (Except Error Frame))
      (calm : s.cancelled = false) : Stops s (.error e :: rest) (.source e) s.sink
  | order {s : Station σ τ} {previous : Nat} (frame : Frame) (rest : List (Except Error Frame))
      (calm : s.cancelled = false) (last : s.last = some previous)
      (notAbove : frame.sequence ≤ previous) :
      Stops s (.ok frame :: rest) (.order previous frame.sequence) s.sink
  | plugin {s : Station σ τ} {frame : Frame} {e : Error} (rest : List (Except Error Frame))
      (calm : s.cancelled = false) (precedes : s.Precedes frame)
      (refuses : Plugin.Refuses frame s.plugins e) :
      Stops s (.ok frame :: rest) (.plugin e) s.sink
  | sink {s : Station σ τ} {frame image : Frame} {plugins : List σ} {asked : Bool} {e : Error}
      (rest : List (Except Error Frame)) (calm : s.cancelled = false)
      (precedes : s.Precedes frame) (passes : Plugin.Passes frame s.plugins image plugins asked)
      (refused : (Sink.write image s.sink).result = .error e) :
      Stops s (.ok frame :: rest) (.sink e) (Sink.write image s.sink).state

/-- The outcomes of a run that stopped at a station: the result, and the sink it leaves. Only at the
end of the input are the plugins finished and the sink committed; every failure aborts it. -/
inductive Ends (s : Station σ τ) (stop : Stop) (left : τ) (summary : Summary) :
    Except Error Summary → τ → Prop where
  | broken {e : Error} (failure : stop.failure? s.last = some e) :
      Ends s stop left summary (.error e) (Sink.abort left).state
  | unfinished {e : Error} (ended : stop = .endOfInput)
      (refused : (Plugin.finishAll s.plugins).result = .error e) :
      Ends s stop left summary (.error (e.toJobFailure s.last)) (Sink.abort s.sink).state
  | uncommitted {e : Error} (ended : stop = .endOfInput)
      (finished : (Plugin.finishAll s.plugins).result = .ok ())
      (refused : (Sink.commit s.sink).result = .error e) :
      Ends s stop left summary (.error (e.toJobFailure s.last))
        (Sink.abort (Sink.commit s.sink).state).state
  | committed (ended : stop = .endOfInput)
      (finished : (Plugin.finishAll s.plugins).result = .ok ())
      (taken : (Sink.commit s.sink).result = .ok ()) :
      Ends s stop left summary (.ok summary) (Sink.commit s.sink).state

/-- Moved frames passed the plugins. -/
theorem MovesAll.passesAll {s last : Station σ τ} {frames images : List Frame}
    (h : MovesAll s frames images last) :
    Plugin.PassesAll s.plugins frames images last.plugins := by
  induction h with
  | nil s => exact .nil s.plugins
  | cons first _ ih =>
      cases first with
      | mk calm precedes passes taken => exact .cons passes ih

/-- The sink took the images, in their order. -/
theorem MovesAll.takes {s last : Station σ τ} {frames images : List Frame}
    (h : MovesAll s frames images last) : Sink.Takes s.sink images last.sink := by
  induction h with
  | nil s => exact .nil s.sink
  | cons first _ ih =>
      cases first with
      | mk calm precedes passes taken => exact .cons taken ih

/-- Success needs the end of the input, plugins that take the end of the frames and a sink that is
committed, and nothing else. -/
theorem Ends.ok_iff {s : Station σ τ} {stop : Stop} {left final : τ} {summary : Summary}
    {result : Except Error Summary} (h : Ends s stop left summary result final) :
    (∃ summary, result = .ok summary) ↔
      stop = .endOfInput ∧ (Plugin.finishAll s.plugins).result = .ok () ∧
        (Sink.commit s.sink).result = .ok () := by
  constructor
  · rintro ⟨_, rfl⟩
    cases h with
    | committed ended finished taken => exact ⟨ended, finished, taken⟩
  · rintro ⟨rfl, finished, taken⟩
    cases h with
    | broken failure => cases failure
    | unfinished _ refused =>
        rw [finished] at refused
        cases refused
    | uncommitted _ _ refused =>
        rw [taken] at refused
        cases refused
    | committed => exact ⟨_, rfl⟩

/-- A failure is reported as it is, and the sink is aborted as it was left. -/
theorem Ends.of_failure {s : Station σ τ} {stop : Stop} {left final : τ} {summary : Summary}
    {result : Except Error Summary} {e : Error} (h : Ends s stop left summary result final)
    (failure : stop.failure? s.last = some e) :
    result = .error e ∧ final = (Sink.abort left).state := by
  cases h with
  | broken failure' =>
      obtain rfl := Option.some.inj (failure.symm.trans failure')
      exact ⟨rfl, rfl⟩
  | unfinished ended | uncommitted ended | committed ended =>
      subst ended
      cases failure

omit [Plugin σ] [Sink τ] in
theorem Precedes.not_le {s : Station σ τ} {frame : Frame} {previous : Nat} (h : s.Precedes frame)
    (last : s.last = some previous) : ¬frame.sequence ≤ previous :=
  Nat.not_le.2 (h previous last)

/-- A frame is moved in one way only. -/
theorem Moves.unique {s next next' : Station σ τ} {frame image image' : Frame}
    (h : Moves s frame image next) (h' : Moves s frame image' next') :
    image = image' ∧ next = next' := by
  cases h with
  | mk calm precedes passes taken =>
      cases h' with
      | mk calm' precedes' passes' taken' =>
          obtain ⟨rfl, rfl, rfl⟩ := passes.unique passes'
          exact ⟨rfl, rfl⟩

/-- Where a frame is moved there is no reason to stop. -/
theorem Moves.not_stops {s next : Station σ τ} {frame image : Frame}
    {rest : List (Except Error Frame)} {stop : Stop} {left : τ} (h : Moves s frame image next) :
    ¬Stops s (.ok frame :: rest) stop left := by
  intro stops
  cases h with
  | mk calm precedes passes taken =>
      cases stops with
      | cancelled _ asked => exact Bool.false_ne_true (calm.symm.trans asked)
      | order _ _ _ last notAbove => exact precedes.not_le last notAbove
      | plugin _ _ _ refuses => exact passes.not_refuses refuses
      | sink _ _ _ passes' refused =>
          obtain ⟨rfl, -, -⟩ := passes.unique passes'
          rw [taken] at refused
          cases refused

/-- Determinism: the reason to stop is unique. -/
theorem Stops.unique {s : Station σ τ} {messages : List (Except Error Frame)} {stop stop' : Stop}
    {left left' : τ} (h : Stops s messages stop left) (h' : Stops s messages stop' left') :
    stop = stop' ∧ left = left' := by
  -- cancellation is looked at first, then the message, its number, the plugins and the sink
  cases h with
  | cancelled _ asked =>
      cases h' with
      | cancelled => exact ⟨rfl, rfl⟩
      | endOfInput calm | source _ _ calm | order _ _ calm | plugin _ calm | sink _ calm =>
          exact absurd (calm.symm.trans asked) Bool.false_ne_true
  | endOfInput calm =>
      cases h' with
      | cancelled _ asked => exact absurd (calm.symm.trans asked) Bool.false_ne_true
      | endOfInput => exact ⟨rfl, rfl⟩
  | source e rest calm =>
      cases h' with
      | cancelled _ asked => exact absurd (calm.symm.trans asked) Bool.false_ne_true
      | source => exact ⟨rfl, rfl⟩
  | order frame rest calm last notAbove =>
      cases h' with
      | cancelled _ asked => exact absurd (calm.symm.trans asked) Bool.false_ne_true
      | order _ _ _ last' =>
          obtain rfl := Option.some.inj (last.symm.trans last')
          exact ⟨rfl, rfl⟩
      | plugin _ _ precedes => exact absurd notAbove (precedes.not_le last)
      | sink _ _ precedes => exact absurd notAbove (precedes.not_le last)
  | plugin rest calm precedes refuses =>
      cases h' with
      | cancelled _ asked => exact absurd (calm.symm.trans asked) Bool.false_ne_true
      | order _ _ _ last notAbove => exact absurd notAbove (precedes.not_le last)
      | plugin _ _ _ refuses' =>
          obtain rfl := Except.error.inj (refuses.processAll_eq.symm.trans refuses'.processAll_eq)
          exact ⟨rfl, rfl⟩
      | sink _ _ _ passes => exact absurd refuses passes.not_refuses
  | sink rest calm precedes passes refused =>
      cases h' with
      | cancelled _ asked => exact absurd (calm.symm.trans asked) Bool.false_ne_true
      | order _ _ _ last notAbove => exact absurd notAbove (precedes.not_le last)
      | plugin _ _ _ refuses => exact absurd refuses passes.not_refuses
      | sink _ _ _ passes' refused' =>
          obtain ⟨rfl, -, -⟩ := passes.unique passes'
          obtain rfl := Except.error.inj (refused.symm.trans refused')
          exact ⟨rfl, rfl⟩

/-- Messages are divided in one way into frames that are moved and a reason to stop. -/
theorem MovesAll.unique {s last last' : Station σ τ} {frames frames' images images' : List Frame}
    {rest rest' : List (Except Error Frame)} {stop stop' : Stop} {left left' : τ}
    (h : MovesAll s frames images last) (stops : Stops last rest stop left)
    (h' : MovesAll s frames' images' last') (stops' : Stops last' rest' stop' left')
    (same : frames.map .ok ++ rest = frames'.map .ok ++ rest') :
    frames = frames' ∧ images = images' ∧ rest = rest' ∧ last = last' ∧ stop = stop' ∧
      left = left' := by
  induction h generalizing frames' images' with
  | nil s =>
      cases h' with
      | nil =>
          -- both stop at the same station
          have hrest : rest = rest' := same
          subst hrest
          obtain ⟨rfl, rfl⟩ := stops.unique stops'
          exact ⟨rfl, rfl, rfl, rfl, rfl, rfl⟩
      | cons first' _ =>
          have hrest : rest = _ := same
          subst hrest
          exact absurd stops first'.not_stops
  | cons first _ ih =>
      cases h' with
      | nil =>
          have hrest : _ = rest' := same
          subst hrest
          exact absurd stops' first.not_stops
      | cons first' others' =>
          simp only [List.map_cons, List.cons_append, List.cons.injEq, Except.ok.injEq] at same
          obtain ⟨rfl, same⟩ := same
          obtain ⟨rfl, rfl⟩ := first.unique first'
          obtain ⟨rfl, rfl, rfl, rfl, rfl, rfl⟩ := ih stops others' same
          exact ⟨rfl, rfl, rfl, rfl, rfl, rfl⟩

end Station

namespace Progress

/-- The progress after frames were moved to these images. -/
def moved (p : Progress) (frames images : List Frame) : Progress :=
  { framesIn := p.framesIn + frames.length
    framesOut := p.framesOut + images.length
    bytesOut := p.bytesOut + (images.flatMap Frame.data).length
    lastIn := (frames.getLast?.map Frame.sequence).or p.lastIn
    lastDone := (frames.getLast?.map Frame.sequence).or p.lastDone }

theorem moved_singleton (p : Progress) (frame image : Frame) :
    p.moved [frame] [image] = ⟨p.framesIn + 1, p.framesOut + 1, p.bytesOut + image.size,
      some frame.sequence, some frame.sequence⟩ := by
  rw [moved, List.flatMap_singleton]
  rfl

theorem moved_cons (p : Progress) (frame image : Frame) (frames images : List Frame) :
    p.moved (frame :: frames) (image :: images) =
      (p.moved [frame] [image]).moved frames images := by
  rw [moved_singleton]
  simp only [moved, List.length_cons, List.flatMap_cons, List.length_append, List.getLast?_cons,
    Option.map_some, Frame.size, Progress.mk.injEq]
  refine ⟨by omega, by omega, by omega, ?_, ?_⟩ <;> cases frames.getLast? <;> rfl

end Progress

namespace Run

variable {σ τ : Type}

/-- Where a run stands that calls no tool. -/
def station (run : Run σ τ) : Station σ τ :=
  ⟨run.before, run.sink, run.progress.lastDone, run.cancelled⟩

/-- Every frame taken is completed, and no plugin stands behind a tool. -/
def Settled (run : Run σ τ) : Prop :=
  run.progress.lastIn = run.progress.lastDone ∧ run.after = []

variable [Plugin σ] [Sink τ]

/-- One message either moves a frame or stops the run. -/
theorem step_moves_or_stops (run : Run σ τ) (settled : run.Settled) (calm : run.cancelled = false)
    (message : Except Error Frame) :
    (∃ frame image, message = .ok frame ∧ (run.step message).2 = .ok () ∧
      Station.Moves run.station frame image (run.step message).1.station ∧
      (run.step message).1.Settled ∧
      (run.step message).1.progress = run.progress.moved [frame] [image]) ∨
    (∃ stop e, (run.step message).2 = .error e ∧
      (∀ rest, Station.Stops run.station (message :: rest) stop (run.step message).1.sink) ∧
      stop.failure? run.progress.lastDone = some e) := by
  rcases run.progress.accept_eq message with ⟨e, rfl, haccept⟩ |
    ⟨frame, previous, rfl, hlast, notAbove, haccept⟩ | ⟨frame, rfl, above, haccept⟩
  · simp only [step, haccept]
    exact .inr ⟨.source e, _, rfl, fun rest => .source e rest calm, rfl⟩
  · simp only [step, haccept]
    have last : run.station.last = some previous := settled.1.symm.trans hlast
    exact .inr ⟨.order previous frame.sequence, _, rfl,
      fun rest => .order frame rest calm last notAbove, rfl⟩
  · have precedes : run.station.Precedes frame := by
      intro previous hprevious
      exact above previous (settled.1.trans hprevious)
    cases hpass : (Plugin.processAll frame run.before).result with
    | error e =>
        simp only [step, haccept, applyBefore, hpass, mapError_error]
        exact .inr ⟨.plugin e, _, rfl,
          fun rest => .plugin rest calm precedes (Plugin.refuses_of_processAll hpass), rfl⟩
    | ok image =>
        have passes := Plugin.passes_of_processAll hpass
        cases hwrite : (Sink.write image run.sink).result with
        | error e =>
            simp only [step, haccept, applyBefore, hpass, mapError_ok, write, hwrite]
            exact .inr ⟨.sink e, _, rfl, fun rest => .sink rest calm precedes passes hwrite, rfl⟩
        | ok _ =>
            simp only [step, haccept, applyBefore, hpass, mapError_ok, write, hwrite]
            refine .inl ⟨frame, image, rfl, trivial, ?_, ⟨rfl, settled.2⟩,
              (run.progress.moved_singleton frame image).symm⟩
            have moves : Station.Moves run.station frame image _ :=
              .mk calm precedes passes hwrite
            simpa [station, Progress.complete, Progress.wrote, calm] using moves

/-- The loop moves frames up to the first reason to stop. It succeeds only at the end of the input,
and then stands where the last frame left it. -/
theorem exists_moves_drive (run : Run σ τ) (settled : run.Settled)
    (messages : List (Except Error Frame)) :
    ∃ frames images rest station stop left,
      messages = frames.map .ok ++ rest ∧
      Station.MovesAll run.station frames images station ∧
      Station.Stops station rest stop left ∧
      ((∃ e, stop.failure? station.last = some e ∧ (run.drive messages).2 = .error e ∧
          (run.drive messages).1.sink = left) ∨
        (stop = .endOfInput ∧ (run.drive messages).2 = .ok () ∧
          (run.drive messages).1.station = station ∧ (run.drive messages).1.Settled ∧
          (run.drive messages).1.progress = run.progress.moved frames images)) := by
  -- the loop looks for cancellation before every message, and once more behind the last
  induction messages generalizing run with
  | nil =>
      cases hcancelled : run.cancelled with
      | true =>
          refine ⟨[], [], [], run.station, .cancelled, run.sink, rfl, .nil _,
            .cancelled [] hcancelled, .inl ⟨_, rfl, ?_, ?_⟩⟩ <;>
            simp [drive, hcancelled, stopCancelled, station, log]
      | false =>
          refine ⟨[], [], [], run.station, .endOfInput, run.sink, rfl, .nil _,
            .endOfInput hcancelled, .inr ⟨rfl, ?_⟩⟩
          simp only [drive, hcancelled]
          exact ⟨rfl, rfl, settled, rfl⟩
  | cons message messages ih =>
      cases hcancelled : run.cancelled with
      | true =>
          refine ⟨[], [], message :: messages, run.station, .cancelled, run.sink, rfl, .nil _,
            .cancelled _ hcancelled, .inl ⟨_, rfl, ?_, ?_⟩⟩ <;>
            simp [drive, hcancelled, stopCancelled, station, log]
      | false =>
          rcases run.step_moves_or_stops settled hcancelled message with
            ⟨frame, image, rfl, hok, moves, settled', hprogress⟩ | ⟨stop, e, herror,
              stops, hfailure⟩
          · have hdrive : run.drive (.ok frame :: messages) =
                (run.step (.ok frame)).1.drive messages := by
              rw [drive]
              simp only [hcancelled, Bool.false_eq_true, if_false]
              split
              · next heq => rw [heq] at hok; cases hok
              · next heq => rw [heq]
            obtain ⟨frames, images, rest, station, stop, left, rfl, hall, hstops, hend⟩ :=
              ih (run.step (.ok frame)).1 settled'
            refine ⟨frame :: frames, image :: images, rest, station, stop, left, rfl,
              .cons moves hall, hstops, ?_⟩
            rw [hdrive, Progress.moved_cons, ← hprogress]
            exact hend
          · refine ⟨[], [], message :: messages, run.station, stop, _, rfl, .nil _, stops messages,
              .inl ⟨e, hfailure, ?_⟩⟩
            rw [drive]
            simp only [hcancelled, Bool.false_eq_true, if_false]
            split
            · next heq => rw [heq] at herror ⊢; exact ⟨herror, rfl⟩
            · next heq => rw [heq] at herror; cases herror

/-- The loop ends at the station and with the stop that a division of the messages gives. -/
theorem drive_of_moves {run : Run σ τ} (settled : run.Settled)
    {messages rest : List (Except Error Frame)} {frames images : List Frame}
    {station : Station σ τ} {stop : Stop} {left : τ} (divided : messages = frames.map .ok ++ rest)
    (moves : run.station.MovesAll frames images station) (stops : station.Stops rest stop left) :
    (∃ e, stop.failure? station.last = some e ∧ (run.drive messages).2 = .error e ∧
      (run.drive messages).1.sink = left) ∨
    (stop = .endOfInput ∧ (run.drive messages).2 = .ok () ∧
      (run.drive messages).1.station = station ∧ (run.drive messages).1.Settled ∧
      (run.drive messages).1.progress = run.progress.moved frames images) := by
  obtain ⟨_, _, _, _, _, _, hmessages, moves', stops', hend⟩ :=
    run.exists_moves_drive settled messages
  obtain ⟨rfl, rfl, rfl, rfl, rfl, rfl⟩ :=
    moves.unique stops moves' stops' (divided.symm.trans hmessages)
  exact hend

/-- Behind frames that were moved without a request for cancellation the loop is at its end. -/
theorem drive_of_calm {run : Run σ τ} (settled : run.Settled) {frames images : List Frame}
    {station : Station σ τ} (moves : run.station.MovesAll frames images station)
    (calm : station.cancelled = false) :
    (run.drive (frames.map .ok)).2 = .ok () ∧ (run.drive (frames.map .ok)).1.station = station := by
  have stops : station.Stops [] .endOfInput station.sink := .endOfInput calm
  rcases drive_of_moves settled (List.append_nil _).symm moves stops with ⟨e, hfailure, -⟩ |
    ⟨-, hresult, hstation, -⟩
  · cases hfailure
  · exact ⟨hresult, hstation⟩

omit [Sink τ] in
theorem finish_progress (run : Run σ τ) : run.finish.1.progress = run.progress := by
  simp only [finish]
  split <;> rfl

omit [Sink τ] in
/-- Without a tool the plugins are finished in their order, up to the first refusal. -/
theorem finish_result (run : Run σ τ) (behind : run.after = []) :
    run.finish.2 = (Plugin.finishAll run.before).result.mapError run.fail := by
  simp only [finish, behind, Plugin.finishAll]
  split <;> next h => rw [h]; rfl

end Run

namespace Pipeline

variable {σ τ : Type} [Plugin σ] [Sink τ]

/-- Plugins that call no tool all stand in front of it. -/
theorem divide_of_invocation_none {plugins : List σ}
    (inProcess : ∀ s ∈ plugins, Plugin.invocation s = none) :
    divide plugins = (plugins, [], none) := by
  induction plugins with
  | nil => rfl
  | cons s rest ih =>
      have first := inProcess s List.mem_cons_self
      have behind := ih fun s hs => inProcess s (List.mem_cons_of_mem _ hs)
      simp only [divide, first, behind]

/-- A run without a tool that is driven to its end, sink included. -/
theorem complete_conveys (around : Surroundings) (timeout : Nat) (run : Run σ τ)
    (settled : run.Settled) (messages : List (Except Error Frame)) :
    ∃ frames images rest station stop left,
      messages = frames.map .ok ++ rest ∧
      Station.MovesAll run.station frames images station ∧
      Station.Stops station rest stop left ∧
      ((∃ next e, complete around timeout run none messages = (next, .error e) ∧
          ∀ summary,
            Station.Ends station stop left summary (.error e) (Sink.abort next.sink).state) ∨
        (∃ next, complete around timeout run none messages = (next, .ok ()) ∧
          next.progress = run.progress.moved frames images ∧
          ∀ summary, Station.Ends station stop left summary (.ok summary) next.sink)) := by
  obtain ⟨frames, images, rest, station, stop, left, hmessages, hall, hstops, hend⟩ :=
    run.exists_moves_drive settled messages
  refine ⟨frames, images, rest, station, stop, left, hmessages, hall, hstops, ?_⟩
  rcases hdrive : run.drive messages with ⟨driven, result⟩
  rw [hdrive] at hend
  rcases hend with ⟨e, hfailure, herror, hleft⟩ | ⟨hstop, hok, hstation, hsettled, hprogress⟩
  · -- the frames stopped before the end of the input
    subst herror hleft
    refine .inl ⟨driven, e, ?_, fun summary => .broken hfailure⟩
    simp only [complete, drive, hdrive]
  · subst hok hstation
    rcases hfinish : driven.finish with ⟨finished, result⟩
    have hsink : finished.sink = driven.sink := by rw [← driven.finish_sink, hfinish]
    have hkept : finished.progress = driven.progress := by rw [← driven.finish_progress, hfinish]
    have hresult : result = (Plugin.finishAll driven.before).result.mapError driven.fail := by
      rw [← driven.finish_result hsettled.2, hfinish]
    cases htold : (Plugin.finishAll driven.before).result with
    | error e =>
        -- a plugin refuses the end of the frames
        have herror : result = .error (driven.fail e) := by rw [hresult, htold]; rfl
        subst herror
        refine .inl ⟨finished, driven.fail e, ?_, fun summary => ?_⟩
        · simp only [complete, drive, hdrive, hfinish]
        · rw [hsink]
          exact .unfinished hstop htold
    | ok _ =>
        have hok : result = .ok () := by rw [hresult, htold]; rfl
        subst hok
        have hcomplete : complete around timeout run none messages = commit finished := by
          simp only [complete, drive, hdrive, hfinish]
        have hleft : (commit finished).1.sink = (Sink.commit driven.sink).state := by
          rw [← hsink]
          rfl
        have hfail : finished.fail = driven.fail := by
          funext e
          rw [Run.fail, Run.fail, hkept]
        have hreport : (commit finished).2 =
            (Sink.commit driven.sink).result.mapError driven.fail := by
          rw [← hsink, ← hfail]
          rfl
        cases hcommit : (Sink.commit driven.sink).result with
        | error e =>
            -- the sink refuses to be committed
            refine .inl ⟨(commit finished).1, driven.fail e, ?_, fun summary => ?_⟩
            · rw [hcomplete]
              exact Prod.ext rfl (by rw [hreport, hcommit]; rfl)
            · rw [hleft]
              exact .uncommitted hstop htold hcommit
        | ok _ =>
            refine .inr ⟨(commit finished).1, ?_, hkept.trans hprogress, fun summary => ?_⟩
            · rw [hcomplete]
              exact Prod.ext rfl (by rw [hreport, hcommit]; rfl)
            · rw [hleft]
              exact .committed hstop htold hcommit

/-- A run of configured plugins without a tool. -/
theorem runConfigured_conveys (job : Job) (around : Surroundings) (timeout : Nat)
    (plugins : List σ) (source : Source) (sink : τ) (cancelled : Bool)
    (inProcess : ∀ s ∈ plugins, Plugin.invocation s = none) :
    ∃ frames images rest station stop left,
      (source.feed around.tree).messages = frames.map .ok ++ rest ∧
      Station.MovesAll ⟨plugins, sink, none, cancelled⟩ frames images station ∧
      Station.Stops station rest stop left ∧
      Station.Ends station stop left
        { framesIn := frames.length, framesOut := images.length
          bytesIn := (source.feed around.tree).bytesRead
          bytesOut := (images.flatMap Frame.data).length
          lastSequence := frames.getLast?.map Frame.sequence }
        (runConfigured job around timeout plugins source sink cancelled).result
        (runConfigured job around timeout plugins source sink cancelled).sink := by
  obtain ⟨frames, images, rest, station, stop, left, hmessages, hall, hstops, hend⟩ :=
    complete_conveys around timeout
      ({ before := plugins, sink, cancelled
         lines := startLine job :: (source.feed around.tree).lines } : Run σ τ)
      ⟨rfl, rfl⟩ (source.feed around.tree).messages
  refine ⟨frames, images, rest, station, stop, left, hmessages, hall, hstops, ?_⟩
  simp only [runConfigured, divide_of_invocation_none inProcess]
  rcases hend with ⟨next, e, hcomplete, hends⟩ | ⟨next, hcomplete, hprogress, hends⟩
  · rw [hcomplete]
    exact hends _
  · rw [hcomplete]
    simp only [Summary.ofProgress, hprogress, Progress.moved, Nat.zero_add, Option.or_none]
    exact hends _

/-- **A run without a tool moves the frames of its source up to the first reason to stop.** There is
one way to divide the messages into frames that are moved, by the plugins as they were configured,
and a reason to stop, and the run ends as that reason demands. It succeeds exactly if the reason is
the end of the input, every plugin takes the end of the frames and the sink is committed. -/
theorem run_conveys (p : Pipeline σ) (around : Surroundings) (source : Source) (sink : τ)
    (valid : (p.job.validate around.tools around.tree).result = .ok ())
    (configured : (Plugin.configureAll p.job.options p.chain).result = .ok ())
    (inProcess : ∀ s ∈ (Plugin.configureAll p.job.options p.chain).state,
      Plugin.invocation s = none) :
    let start : Station σ τ :=
      ⟨(Plugin.configureAll p.job.options p.chain).state, sink, none,
        around.cancelled || (Plugin.configureAll p.job.options p.chain).cancels⟩
    let feed := source.feed around.tree
    let outcome := p.run around source sink
    (∃ frames images rest station stop left, feed.messages = frames.map .ok ++ rest ∧
      start.MovesAll frames images station ∧ station.Stops rest stop left) ∧
    ∀ frames images rest station stop left, feed.messages = frames.map .ok ++ rest →
      start.MovesAll frames images station → station.Stops rest stop left →
      Plugin.PassesAll start.plugins frames images station.plugins ∧
      Sink.Takes sink images station.sink ∧
      ((∃ summary, outcome.result = .ok summary) ↔
        stop = .endOfInput ∧ (Plugin.finishAll station.plugins).result = .ok () ∧
          (Sink.commit station.sink).result = .ok ()) ∧
      station.Ends stop left
        { framesIn := frames.length, framesOut := images.length, bytesIn := feed.bytesRead
          bytesOut := (images.flatMap Frame.data).length
          lastSequence := frames.getLast?.map Frame.sequence }
        outcome.result outcome.sink := by
  intro start feed outcome
  obtain ⟨timeout, hprepared⟩ := exists_prepared valid configured
  obtain ⟨hresult, hsink⟩ := run_of_prepared hprepared source sink
  obtain ⟨frames₀, images₀, rest₀, station₀, stop₀, left₀, hmessages₀, hall₀, hstops₀, hends₀⟩ :=
    runConfigured_conveys p.job around timeout _ source sink
      (around.cancelled || (Plugin.configureAll p.job.options p.chain).cancels) inProcess
  rw [← hresult, ← hsink] at hends₀
  refine ⟨⟨frames₀, images₀, rest₀, station₀, stop₀, left₀, hmessages₀, hall₀, hstops₀⟩, ?_⟩
  intro frames images rest station stop left hmessages hall hstops
  obtain ⟨rfl, rfl, rfl, rfl, rfl, rfl⟩ :=
    hall.unique hstops hall₀ hstops₀ (hmessages.symm.trans hmessages₀)
  exact ⟨hall.passesAll, hall.takes, hends₀.ok_iff, hends₀⟩

/-- The third frame repeats a number: two frames are moved, and the sink is aborted. -/
theorem run_conveys_relay :
    let outcome := relay.run { tree := {}, elapsed := "" }
      (.memory [.ok ⟨3, [1, 2]⟩, .ok ⟨7, [5]⟩, .ok ⟨7, [9]⟩, .ok ⟨8, []⟩] 0) ({} : MemorySink)
    outcome.result = .error (.pipeline (.outOfOrder 7 7) (some 7)) ∧
      outcome.sink.frames = [⟨3, [1, 2]⟩, ⟨7, [5]⟩] ∧ outcome.sink.aborted = true := by
  intro outcome
  have valid : (relay.job.validate {} {}).result = .ok () := rfl
  have conveys := (run_conveys relay { tree := {}, elapsed := "" }
    (.memory [.ok ⟨3, [1, 2]⟩, .ok ⟨7, [5]⟩, .ok ⟨7, [9]⟩, .ok ⟨8, []⟩] 0) ({} : MemorySink)
    valid rfl (fun _ _ => rfl)).2
  obtain ⟨_, _, _, ends⟩ := conveys [⟨3, [1, 2]⟩, ⟨7, [5]⟩] [⟨3, [1, 2]⟩, ⟨7, [5]⟩]
    [.ok ⟨7, [9]⟩, .ok ⟨8, []⟩] _ _ _ rfl
    (.cons (.mk rfl (by rintro _ ⟨⟩) (Plugin.passes_of_processAll rfl) rfl)
      (.cons (.mk rfl (by rintro _ ⟨⟩; decide) (Plugin.passes_of_processAll rfl) rfl) (.nil _)))
    (.order _ _ rfl rfl (Nat.le_refl 7))
  obtain ⟨hresult, hsink⟩ := ends.of_failure rfl
  refine ⟨hresult, ?_, ?_⟩
  · exact congrArg MemorySink.frames hsink
  · exact congrArg MemorySink.aborted hsink

end Pipeline

end Transcode
