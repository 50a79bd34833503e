import Transcode.Proofs.Schedules
/-!
# All runs of a pipeline

`Pipeline.Runs` is the relation of all runs of a prepared pipeline: without a tool there is one, and
through a tool there is one for every schedule of the pump (`Pump.Drives`). The relation keeps two
things that a run does not report: the frames that were completed, and the cause of the failure,
before the last frame is added to it. The performed run is one of these, and undisturbed
(`Pipeline.exists_runs_run`).
-/

set_option autoImplicit false

namespace Transcode

namespace Stop

/-- The cause of a stop. -/
def cause? : Stop → Option Error
  | endOfInput => none
  | cancelled => some (.cancelled none)
  | source e | plugin e | sink e => some e
  | order previous next => some (.pipeline (.outOfOrder previous next) none)

theorem failure?_eq (last : Option Nat) (stop : Stop) :
    stop.failure? last = stop.cause?.map (Error.toJobFailure last) := by
  cases stop <;> rfl

end Stop

/-- Finishing concatenated lists of plugins. -/
theorem Plugin.finishAll_append {σ : Type} [Plugin σ] (first second : List σ) :
    (finishAll (first ++ second)).result =
      (finishAll first).result.bind fun () => (finishAll second).result := by
  induction first with
  | nil => rfl
  | cons p rest ih =>
      simp only [List.cons_append, finishAll]
      cases (finish p).result with
      | error e => rfl
      | ok _ => exact ih

/-- The plugins on both sides of a tool are finished in their order, up to the first refusal. -/
theorem Run.finish_eq {σ τ : Type} [Plugin σ] (run : Run σ τ) :
    run.finish.2 = (Plugin.finishAll (run.before ++ run.after)).result.mapError run.fail := by
  rw [Plugin.finishAll_append, finish]
  cases h : (Plugin.finishAll run.before).result with
  | error e => rfl
  | ok _ => rfl

namespace Pipeline

variable {σ τ : Type} [Plugin σ] [Sink τ]

/-- The ways in which the frames of a run can move. Without a tool they move up to the first reason
to stop; where the run is disturbed, it may be cancelled before that, between two frames. A tool
that is not started moves none, and one that is started may be driven by any schedule. -/
inductive Drives (disturbed : Prop) (around : Surroundings) (timeout : Nat) (run : Run σ τ)
    (messages : List (Except Error Frame)) :
    Option Invocation → List Frame → Option Error → Run σ τ → Except Error Unit → Prop where
  | inProcess {frames images : List Frame} {rest : List (Except Error Frame)}
      {station : Station σ τ} {stop : Stop} {left : τ} (divided : messages = frames.map .ok ++ rest)
      (moves : run.station.MovesAll frames images station) (stops : station.Stops rest stop left) :
      Drives disturbed around timeout run messages none frames stop.cause? (run.drive messages).1
        (run.drive messages).2
  | interrupted {frames images : List Frame} {rest : List (Except Error Frame)}
      {station : Station σ τ} (asked : disturbed) (divided : messages = frames.map .ok ++ rest)
      (moves : run.station.MovesAll frames images station) (calm : station.cancelled = false) :
      Drives disturbed around timeout run messages none frames (some (.cancelled none))
        (run.drive (frames.map .ok)).1.stopCancelled.1
        (.error (run.drive (frames.map .ok)).1.stopCancelled.2)
  | unstarted {call : Invocation} {cause : Error}
      (refused : (around.tools.launch around.tree timeout call).result = .error cause) :
      Drives disturbed around timeout run messages (some call) [] (some cause)
        (run.log (around.tools.launch around.tree timeout call).lines) (.error (run.fail cause))
  | through {call : Invocation} {session : Session} {completed : List Frame} {cause? : Option Error}
      {last : Run σ τ} {result : Except Error Unit}
      (started : (around.tools.launch around.tree timeout call).result = .ok session)
      (drives : Pump.Drives disturbed session
        (run.log (around.tools.launch around.tree timeout call).lines) messages completed
          cause? last
        result) :
      Drives disturbed around timeout run messages (some call) completed cause? last result

/-- The completions of a run: the frames stop, a plugin refuses the end of the frames, or the sink
decides. -/
inductive Completes (disturbed : Prop) (around : Surroundings) (timeout : Nat) (run : Run σ τ)
    (messages : List (Except Error Frame)) (call : Option Invocation) :
    List Frame → Option Error → Run σ τ → Except Error Unit → Prop where
  | broken {completed : List Frame} {cause? : Option Error} {last : Run σ τ} {e : Error}
      (drives : Drives disturbed around timeout run messages call completed cause? last
        (.error e)) :
      Completes disturbed around timeout run messages call completed cause? last (.error e)
  | unfinished {completed : List Frame} {cause? : Option Error} {cause : Error} {driven : Run σ τ}
      (drives : Drives disturbed around timeout run messages call completed cause? driven (.ok ()))
      (refused : (Plugin.finishAll (driven.before ++ driven.after)).result = .error cause) :
      Completes disturbed around timeout run messages call completed (some cause) driven.finish.1
        driven.finish.2
  | uncommitted {completed : List Frame} {cause? : Option Error} {cause : Error} {driven : Run σ τ}
      (drives : Drives disturbed around timeout run messages call completed cause? driven (.ok ()))
      (finished : (Plugin.finishAll (driven.before ++ driven.after)).result = .ok ())
      (refused : (Sink.commit driven.sink).result = .error cause) :
      Completes disturbed around timeout run messages call completed (some cause)
        (commit driven.finish.1).1 (commit driven.finish.1).2
  | committed {completed : List Frame} {cause? : Option Error} {driven : Run σ τ}
      (drives : Drives disturbed around timeout run messages call completed cause? driven (.ok ()))
      (finished : (Plugin.finishAll (driven.before ++ driven.after)).result = .ok ())
      (taken : (Sink.commit driven.sink).result = .ok ()) :
      Completes disturbed around timeout run messages call completed none
        (commit driven.finish.1).1 (commit driven.finish.1).2

/-- The plugins of a pipeline as its job configures them. -/
def configured (p : Pipeline σ) : List σ :=
  (Plugin.configureAll p.job.options p.chain).state

/-- Whether cancellation was requested before the first frame. -/
def cancelledEarly (p : Pipeline σ) (around : Surroundings) : Bool :=
  around.cancelled || (Plugin.configureAll p.job.options p.chain).cancels

/-- The run of a pipeline before the first frame. -/
def begun (p : Pipeline σ) (around : Surroundings) (source : Source) (sink : τ) : Run σ τ where
  before := (divide p.configured).1
  after := (divide p.configured).2.1
  sink := sink
  cancelled := p.cancelledEarly around
  lines := startLine p.job :: (source.feed around.tree).lines

/-- The runs of a prepared pipeline: the result, and the sink that is left. -/
inductive Runs (disturbed : Prop) (p : Pipeline σ) (around : Surroundings) (timeout : Nat)
    (source : Source) (sink : τ) :
    List Frame → Option Error → Except Error Summary → τ → Prop where
  | failed {completed : List Frame} {cause? : Option Error} {last : Run σ τ} {e : Error}
      (completes : Completes disturbed around timeout (p.begun around source sink)
        (source.feed around.tree).messages (divide p.configured).2.2 completed cause? last
          (.error e)) :
      Runs disturbed p around timeout source sink completed cause? (.error e)
        (Sink.abort last.sink).state
  | succeeded {completed : List Frame} {cause? : Option Error} {last : Run σ τ}
      (completes : Completes disturbed around timeout (p.begun around source sink)
        (source.feed around.tree).messages (divide p.configured).2.2 completed cause? last
          (.ok ())) :
      Runs disturbed p around timeout source sink completed cause?
        (.ok (.ofProgress last.progress (source.feed around.tree).bytesRead)) last.sink

omit [Sink τ] in
/-- Dividing loses no plugin. -/
theorem divide_append (plugins : List σ) :
    (divide plugins).1 ++ (divide plugins).2.1 = plugins := by
  induction plugins with
  | nil => rfl
  | cons s rest ih =>
      cases hcall : Plugin.invocation s with
      | some call => simp [divide, hcall]
      | none =>
          simp only [divide, hcall, List.cons_append]
          rw [ih]

omit [Sink τ] in
/-- Plugins stand behind a tool only if one is called. -/
theorem divide_behind {plugins : List σ} (h : (divide plugins).2.2 = none) :
    (divide plugins).2.1 = [] := by
  induction plugins with
  | nil => rfl
  | cons s rest ih =>
      cases hcall : Plugin.invocation s with
      | some call => simp [divide, hcall] at h
      | none =>
          simp only [divide, hcall] at h ⊢
          exact ih h

/-- The frames are moved in one of these ways. -/
theorem exists_drives_drive (around : Surroundings) (timeout : Nat) (run : Run σ τ)
    (fresh : run.progress = {}) (call : Option Invocation) (behind : call = none → run.after = [])
    (messages : List (Except Error Frame)) :
    ∃ completed cause?, Drives False around timeout run messages call completed cause?
      (drive around timeout run call messages).1 (drive around timeout run call messages).2 := by
  cases call with
  | none =>
      have settled : run.Settled := ⟨by rw [fresh], behind rfl⟩
      obtain ⟨frames, images, rest, station, stop, left, hmessages, moves, stops, _⟩ :=
        run.exists_moves_drive settled messages
      exact ⟨frames, stop.cause?, .inProcess hmessages moves stops⟩
  | some call =>
      simp only [drive]
      cases hstarted : (around.tools.launch around.tree timeout call).result with
      | error cause => exact ⟨[], some cause, .unstarted hstarted⟩
      | ok session =>
          obtain ⟨completed, cause?, drives⟩ := Pump.exists_drives_drive
            (run.log (around.tools.launch around.tree timeout call).lines) fresh session messages
          exact ⟨completed, cause?, .through hstarted drives⟩

/-- Behind the frames the plugins decide, and then the sink. -/
theorem complete_of_drive {around : Surroundings} {timeout : Nat} {run driven : Run σ τ}
    {call : Option Invocation} {messages : List (Except Error Frame)}
    (h : drive around timeout run call messages = (driven, .ok ())) :
    complete around timeout run call messages =
      match driven.finish.2 with
      | .error e => (driven.finish.1, .error e)
      | .ok () => commit driven.finish.1 := by
  simp only [complete, h]
  rcases driven.finish with ⟨finished, result⟩
  cases result <;> rfl

/-- The performed completion is one of these. -/
theorem exists_completes_complete (around : Surroundings) (timeout : Nat) (run : Run σ τ)
    (fresh : run.progress = {}) (call : Option Invocation) (behind : call = none → run.after = [])
    (messages : List (Except Error Frame)) :
    ∃ completed cause?, Completes False around timeout run messages call completed cause?
      (complete around timeout run call messages).1
        (complete around timeout run call messages).2 := by
  obtain ⟨completed, cause?, drives⟩ :=
    exists_drives_drive around timeout run fresh call behind messages
  rcases hdrive : drive around timeout run call messages with ⟨driven, result⟩
  rw [hdrive] at drives
  cases result with
  | error e =>
      have hcomplete : complete around timeout run call messages = (driven, .error e) := by
        rw [complete, hdrive]
      rw [hcomplete]
      exact ⟨completed, cause?, .broken drives⟩
  | ok _ =>
      have hfinish := driven.finish_eq
      rw [complete_of_drive hdrive, hfinish]
      cases htold : (Plugin.finishAll (driven.before ++ driven.after)).result with
      | error cause =>
          rw [htold] at hfinish
          have unfinished := Completes.unfinished drives htold
          rw [hfinish] at unfinished
          exact ⟨completed, some cause, unfinished⟩
      | ok _ =>
          cases hcommit : (Sink.commit driven.sink).result with
          | error cause => exact ⟨completed, some cause, .uncommitted drives htold hcommit⟩
          | ok _ => exact ⟨completed, none, .committed drives htold hcommit⟩

/-- A pipeline that may start runs in one of the ways in which it can run. -/
theorem exists_runs_run {p : Pipeline σ} {around : Surroundings} {timeout : Nat}
    (prepared : p.prepared around = .ok timeout) (source : Source) (sink : τ) :
    ∃ completed cause?, p.Runs False around timeout source sink completed cause?
      (p.run around source sink).result (p.run around source sink).sink := by
  obtain ⟨hresult, hsink⟩ := run_of_prepared prepared source sink
  obtain ⟨completed, cause?, completes⟩ := exists_completes_complete around timeout
    (p.begun around source sink) rfl (divide p.configured).2.2 divide_behind
    (source.feed around.tree).messages
  refine ⟨completed, cause?, ?_⟩
  rw [hresult, hsink]
  rcases hcomplete : complete around timeout (p.begun around source sink) (divide p.configured).2.2
    (source.feed around.tree).messages with ⟨last, result⟩
  rw [hcomplete] at completes
  rcases hdivide : divide p.configured with ⟨before, after, call⟩
  rw [begun, hdivide, cancelledEarly] at hcomplete
  rw [configured] at hdivide
  simp only [runConfigured, hdivide, hcomplete]
  cases result with
  | error e => exact .failed completes
  | ok _ => exact .succeeded completes

end Pipeline

end Transcode
