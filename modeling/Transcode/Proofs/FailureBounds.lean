import Transcode.Proofs.PossibleRuns
/-!
# Runs fail as their parts do

A run fails because its source, a plugin, the sink or the tool does, because a frame is out of order
or because it is cancelled. `Run.Bound` bounds the failures of these parts while the plugins are in
ready states, and states that they stay ready. Every event at a pump keeps the plugins ready or
fails within the bound (`Pump.step_within`), and so does a whole run (`Pipeline.run_within`).
-/

set_option autoImplicit false

namespace Transcode

/-- The failures of the parts of a run are `allowed` ones, as long as its plugins are `ready`, and
frames leave them so. -/
structure Run.Bound {σ : Type} [Plugin σ] (τ : Type) [Sink τ] (ready : σ → Prop)
    (allowed : Error → Prop) : Prop where
  stays : ∀ frame s, ready s → ready (Plugin.process frame s).state
  process : ∀ frame s e, ready s → (Plugin.process frame s).result = .error e → allowed e
  finish : ∀ s e, ready s → (Plugin.finish s).result = .error e → allowed e
  write : ∀ frame (sink : τ) e, (Sink.write frame sink).result = .error e → allowed e
  commit : ∀ (sink : τ) e, (Sink.commit sink).result = .error e → allowed e
  order : ∀ previous next, allowed (.pipeline (.outOfOrder previous next) none)
  cancelled : allowed (.cancelled none)
  /-- Tools that were found may fail. -/
  tool : ∀ tool failure, failure ≠ .notFound → allowed (.externalTool tool failure none)
  /-- Naming the last frame does not matter. -/
  reported : ∀ e last, allowed e → allowed (e.toJobFailure last)

section Bounds

variable {σ τ : Type} [Plugin σ] [Sink τ] {ready : σ → Prop} {allowed : Error → Prop}

/-! ## Lists of plugins -/

namespace Run.Bound

theorem passes (bound : Bound τ ready allowed) {frame image : Frame} {plugins plugins' : List σ}
    {asked : Bool} (h : Plugin.Passes frame plugins image plugins' asked)
    (all : ∀ s ∈ plugins, ready s) : ∀ s ∈ plugins', ready s := by
  induction h with
  | done => exact all
  | next made passes ih =>
      rw [List.forall_mem_cons] at all ⊢
      exact ⟨bound.stays _ _ all.1, ih all.2⟩

theorem refuses (bound : Bound τ ready allowed) {frame : Frame} {plugins : List σ} {e : Error}
    (h : Plugin.Refuses frame plugins e) (all : ∀ s ∈ plugins, ready s) : allowed e := by
  induction h with
  | here refused => exact bound.process _ _ _ (all _ List.mem_cons_self) refused
  | behind made refuses ih => exact ih fun s hs => all s (List.mem_cons_of_mem _ hs)

theorem finishAll (bound : Bound τ ready allowed) {plugins : List σ} {e : Error}
    (all : ∀ s ∈ plugins, ready s) (refused : (Plugin.finishAll plugins).result = .error e) :
    allowed e := by
  induction plugins with
  | nil => cases refused
  | cons p rest ih =>
      rw [List.forall_mem_cons] at all
      cases hfirst : (Plugin.finish p).result with
      | error cause =>
          simp only [Plugin.finishAll, hfirst, Except.error.injEq] at refused
          subst refused
          exact bound.finish p cause all.1 hfirst
      | ok _ =>
          simp only [Plugin.finishAll, hfirst] at refused
          exact ih all.2 refused

end Run.Bound

/-! ## Runs without a tool -/

theorem Station.MovesAll.keeps_ready {s last : Station σ τ} {frames images : List Frame}
    (bound : Run.Bound τ ready allowed) (h : s.MovesAll frames images last)
    (all : ∀ p ∈ s.plugins, ready p) : ∀ p ∈ last.plugins, ready p := by
  induction h with
  | nil => exact all
  | cons first rest ih =>
      apply ih
      cases first with
      | mk calm precedes passes taken => exact bound.passes passes all

/-- Bound on the reasons to stop of a run without a tool. -/
theorem Station.Stops.within {s : Station σ τ} {messages : List (Except Error Frame)} {stop : Stop}
    {left : τ} {cause : Error} (bound : Run.Bound τ ready allowed) (all : ∀ p ∈ s.plugins, ready p)
    (sources : ∀ e, .error e ∈ messages → allowed e) (h : s.Stops messages stop left)
    (broken : stop.cause? = some cause) : allowed cause := by
  cases h with
  | endOfInput => cases broken
  | cancelled =>
      cases broken
      exact bound.cancelled
  | order =>
      cases broken
      exact bound.order _ _
  | source e rest =>
      cases broken
      exact sources cause List.mem_cons_self
  | plugin _ _ _ refuses =>
      cases broken
      exact bound.refuses refuses all
  | sink _ _ _ _ refused =>
      cases broken
      exact bound.write _ _ _ refused

/-- The failure of a run is an allowed one, and the plugins of a run that did not fail are ready. -/
def Run.Within (ready : σ → Prop) (allowed : Error → Prop) : Run σ τ × Except Error Unit → Prop
  | (_, .error e) => allowed e
  | (run, .ok ()) => ∀ s ∈ run.before ++ run.after, ready s

theorem Run.drive_within (bound : Bound τ ready allowed) {run : Run σ τ} (settled : run.Settled)
    (all : ∀ s ∈ run.before, ready s) {messages : List (Except Error Frame)}
    (sources : ∀ e, .error e ∈ messages → allowed e) :
    Within ready allowed (run.drive messages) := by
  obtain ⟨frames, images, rest, station, stop, left, hdivided, moves, stops, hend⟩ :=
    run.exists_moves_drive settled messages
  have hready := moves.keeps_ready bound all
  rcases hdrive : run.drive messages with ⟨driven, result⟩
  rw [hdrive] at hend
  rcases hend with ⟨e, hfailure, hresult, -⟩ | ⟨-, hresult, hstation, settled', -⟩
  · -- the frames stopped, and the run reports why
    cases hresult
    rw [stop.failure?_eq] at hfailure
    obtain ⟨cause, hcause, rfl⟩ := Option.map_eq_some_iff.1 hfailure
    apply bound.reported
    refine stops.within bound hready (fun e he => sources e ?_) hcause
    rw [hdivided]
    exact List.mem_append_right _ he
  · cases hresult
    show ∀ s ∈ driven.before ++ driven.after, ready s
    rw [settled'.2, List.append_nil]
    rw [← hstation] at hready
    exact hready

/-! ## Runs through a tool -/

/-- The failure that an event brings along. -/
def PumpEvent.failure? : PumpEvent → Option Error
  | .message (.error e) | .outputFailed e => some e
  | _ => none

namespace Pump

/-- All plugins of a pump are ready. -/
def Ready (ready : σ → Prop) (p : Pump σ τ) : Prop :=
  ∀ s ∈ p.run.before ++ p.run.after, ready s

/-- The failure of a pump is an allowed one, and the plugins of a pump that did not fail are ready.
-/
def Within (ready : σ → Prop) (allowed : Error → Prop) : Pump σ τ × PumpStatus → Prop
  | (_, .failed e) => allowed e
  | (p, _) => p.Ready ready

omit [Plugin σ] [Sink τ] in
theorem send_run_plugins (p : Pump σ τ) :
    p.send.run.before = p.run.before ∧ p.send.run.after = p.run.after := by
  unfold send
  split <;> exact ⟨rfl, rfl⟩

/-- An event after which the pump goes on leaves the plugins ready. -/
theorem ready_of_step (bound : Run.Bound τ ready allowed) {p p' : Pump σ τ} {event : PumpEvent}
    (all : p.Ready ready) (goes : p.step event = (p', .going)) : p'.Ready ready := by
  have hparts := List.forall_mem_append.1 all
  cases event with
  | cancel | outputFailed _ | outputClosed => cases goes
  | permit =>
      cases goes
      obtain ⟨hbefore, hafter⟩ := p.send_run_plugins
      show ∀ s ∈ p.send.run.before ++ p.send.run.after, ready s
      rw [hbefore, hafter]
      exact all
  | refused | endOfInput =>
      cases goes
      exact all
  | message m =>
      rcases htake : p.take m with ⟨q, status⟩
      simp only [step, htake] at goes
      cases goes
      obtain ⟨_, _, _, _, _, _, passes, hinput, houtput⟩ := exists_passes_of_take htake
      have hbefore := congrArg InputSide.before hinput
      have hafter := congrArg OutputSide.after houtput
      show ∀ s ∈ q.inputSide.before ++ q.outputSide.after, ready s
      rw [hbefore, hafter]
      exact List.forall_mem_append.2 ⟨bound.passes passes hparts.1, hparts.2⟩
  | output data =>
      simp only [step] at goes
      split at goes
      · cases goes
        exact all
      · obtain ⟨_, _, _, passes, _, houtput, hinput⟩ := exists_passes_of_emit goes
        have hbefore := congrArg InputSide.before hinput
        have hafter := congrArg OutputSide.after houtput
        show ∀ s ∈ p'.inputSide.before ++ p'.outputSide.after, ready s
        rw [hbefore, hafter]
        exact List.forall_mem_append.2 ⟨hparts.1, bound.passes passes hparts.2⟩

/-- Bound on the causes of a failing event. -/
theorem Trips.within (bound : Run.Bound τ ready allowed) {p : Pump σ τ} {event : PumpEvent}
    {cause : Error}
    (all : p.Ready ready) (own : ∀ e, event.failure? = some e → allowed e)
    (h : Trips p event cause) :
    allowed cause := by
  have hparts := List.forall_mem_append.1 all
  cases h with
  | cancelled => exact bound.cancelled
  | source => exact own cause rfl
  | order => exact bound.order _ _
  | before _ refuses => exact bound.refuses refuses hparts.1
  | after _ refuses => exact bound.refuses refuses hparts.2
  | sink _ _ refused => exact bound.write _ _ _ refused
  | output => exact own cause rfl

/-- **One event** leaves the plugins ready or fails in an allowed way. -/
theorem step_within (bound : Run.Bound τ ready allowed) {p : Pump σ τ} {event : PumpEvent}
    (all : p.Ready ready) (own : ∀ e, event.failure? = some e → allowed e) :
    Within ready allowed (p.step event) := by
  rcases hstep : p.step event with ⟨p', status⟩
  have hstatus : (p.step event).2 = status := congrArg Prod.snd hstep
  cases status with
  | going => exact ready_of_step bound all hstep
  | done complete =>
      obtain ⟨rfl, -⟩ := step_done_iff.1 hstatus
      cases hstep
      exact all
  | failed e =>
      obtain ⟨cause, trips⟩ := (step_failed_iff.1 hstatus).exists_trips
      cases hstatus.symm.trans (step_failed_iff.2 trips.fails)
      exact bound.reported _ _ (trips.within bound all own)

theorem next_within (bound : Run.Bound τ ready allowed) {p : Pump σ τ} {event : PumpEvent}
    (all : p.Ready ready) (own : ∀ e, event.failure? = some e → allowed e) :
    Within ready allowed (p.next event) := by
  unfold next
  split
  · exact step_within bound all fun e he => nomatch he
  · exact step_within bound all own

theorem deliver_within (bound : Run.Bound τ ready allowed) (s : Session) {p : Pump σ τ}
    (all : p.Ready ready) : Within ready allowed (p.deliver s) := by
  unfold deliver
  split
  · apply next_within bound all
    intro e he
    split at he <;> cases he
  · exact all

/-- Feeding the tool: the induction is on the messages that are left. -/
theorem feed_within (bound : Run.Bound τ ready allowed) (s : Session) {p : Pump σ τ}
    (all : p.Ready ready)
    {messages : List (Except Error Frame)} (sources : ∀ e, .error e ∈ messages → allowed e) :
    Within ready allowed (p.feed s messages) := by
  induction messages generalizing p with
  | nil => exact next_within bound all fun e he => nomatch he
  | cons m rest ih =>
      have htaken : Within ready allowed (p.next (.message m)) := by
        apply next_within bound all
        intro e he
        cases m with
        | error cause =>
            cases he
            exact sources e List.mem_cons_self
        | ok frame => cases he
      rw [feed]
      rcases hnext : p.next (.message m) with ⟨q, status⟩
      rw [hnext] at htaken
      cases status with
      | done complete | failed e => exact htaken
      | going =>
          have hsent := deliver_within bound s htaken
          rcases hdeliver : q.deliver s with ⟨r, status⟩
          rw [hdeliver] at hsent
          simp only [hdeliver]
          cases status with
          | done complete | failed e => exact hsent
          | going =>
              dsimp only
              split
              · exact hsent
              · exact ih hsent fun e he => sources e (List.mem_cons_of_mem m he)

/-- Receiving from the tool: the induction is on the pieces of output that are left. -/
theorem collect_within (bound : Run.Bound τ ready allowed) {last : PumpEvent}
    (own : ∀ e, last.failure? = some e → allowed e) {p : Pump σ τ} (all : p.Ready ready)
    (chunks : List Bytes) : Within ready allowed (p.collect last chunks) := by
  induction chunks generalizing p with
  | nil => exact next_within bound all own
  | cons data rest ih =>
      have htaken : Within ready allowed (p.next (.output data)) :=
        next_within bound all fun e he => nomatch he
      rw [collect]
      rcases hnext : p.next (.output data) with ⟨q, status⟩
      rw [hnext] at htaken
      cases status with
      | going => exact ih htaken
      | done complete | failed e => exact htaken

end Pump

/-- No ending of a tool is reported as a missing tool. -/
theorem Session.verdict_ne_notFound (s : Session) (ending : Ending) (fault : Option IoError)
    (received : Nat) : s.verdict ending fault received ≠ .error .notFound := by
  intro h
  unfold verdict at h
  split at h
  · cases h
  · cases h
  · cases h
  · split at h
    · cases h
    · split at h
      · cases h
      · split at h <;> cases h

theorem Session.allowed_of_cause? (bound : Run.Bound τ ready allowed) {s : Session}
    {ending : Ending} {fault : Option IoError} {received : Nat} {complete : Bool} {e : Error}
    (h : s.cause? ending fault received complete = some e) : allowed e := by
  rw [cause?] at h
  cases hverdict : s.verdict ending fault received with
  | ok _ =>
      rw [hverdict] at h
      cases complete with
      | true => cases h
      | false =>
          cases h
          exact bound.tool _ _ (by simp)
  | error failure =>
      rw [hverdict] at h
      cases h
      apply bound.tool
      rintro rfl
      exact s.verdict_ne_notFound _ _ _ hverdict

omit [Plugin σ] [Sink τ] in
theorem Pump.ready_of_within {p : Pump σ τ} {status : PumpStatus}
    (h : Within ready allowed (p, status))
    (unbroken : ∀ e, status ≠ .failed e) : p.Ready ready := by
  cases status with
  | failed e => exact absurd rfl (unbroken e)
  | going => exact h
  | done complete => exact h

/-- A run through a tool that was started. -/
theorem Pump.drive_within (bound : Run.Bound τ ready allowed) (s : Session) {run : Run σ τ}
    (all : ∀ p ∈ run.before ++ run.after, ready p) {messages : List (Except Error Frame)}
    (sources : ∀ e, .error e ∈ messages → allowed e) :
    Run.Within ready allowed (drive s run messages) := by
  have hstart : Ready ready ({ run, tool := s.tool } : Pump σ τ) := all
  have hfed := feed_within bound s hstart sources
  rw [drive]
  split
  · next p e hfeed =>
      rw [hfeed] at hfed
      exact hfed
  · next p status hunbroken hfeed =>
      rw [hfeed] at hfed
      have hready : p.Ready ready := ready_of_within hfed hunbroken
      rcases hreply : s.behaviour (s.inputRead p.input) with ⟨output, ending⟩
      dsimp only
      -- a silent tool is logged before its output is received, and then its time is over
      have hreceived : Within ready allowed
          ((if ending = .silent then { p with run := p.run.log [s.idleLine] } else p).collect
            (if ending = .silent then .outputFailed (s.failure (.timeout s.idleTimeout))
              else .outputClosed)
            (Session.outputChunks output)) := by
        apply collect_within bound
        · intro e he
          split at he
          · cases he
            exact bound.tool _ _ (by simp)
          · cases he
        · split <;> exact hready
      split
      · next hcollect =>
          rw [hcollect] at hreceived
          exact hreceived
      · next hcollect =>
          rw [hcollect] at hreceived
          exact hreceived
      · next q complete hcollect =>
          rw [hcollect] at hreceived
          cases hcause : s.cause? ending (s.writeFault? q.sentSize) q.received complete with
          | none => exact hreceived
          | some cause => exact bound.reported _ _ (Session.allowed_of_cause? bound hcause)

namespace Pipeline

variable {around : Surroundings} {timeout : Nat}

/-- A tool that is called and cannot be started is an allowed failure. -/
def StartsWithin (around : Surroundings) (timeout : Nat) (allowed : Error → Prop)
    (call : Option Invocation) : Prop :=
  ∀ c e, call = some c → (around.tools.launch around.tree timeout c).result = .error e → allowed e

theorem drive_within (bound : Run.Bound τ ready allowed) {run : Run σ τ} (fresh : run.progress = {})
    {call : Option Invocation} (behind : call = none → run.after = [])
    (started : StartsWithin around timeout allowed call)
    (all : ∀ s ∈ run.before ++ run.after, ready s) {messages : List (Except Error Frame)}
    (sources : ∀ e, .error e ∈ messages → allowed e) :
    Run.Within ready allowed (drive around timeout run call messages) := by
  cases call with
  | none =>
      have settled : run.Settled := ⟨by rw [fresh], behind rfl⟩
      exact Run.drive_within bound settled (List.forall_mem_append.1 all).1 sources
  | some c =>
      rw [drive]
      split
      · next e hlaunch => exact bound.reported _ _ (started c e rfl hlaunch)
      · next session _ =>
          have hlogged : ∀ s ∈ (run.log (around.tools.launch around.tree timeout c).lines).before ++
              (run.log (around.tools.launch around.tree timeout c).lines).after, ready s := all
          exact Pump.drive_within bound session hlogged sources

/-- All frames, then the plugins, then the sink. -/
theorem complete_within (bound : Run.Bound τ ready allowed) {run : Run σ τ}
    (fresh : run.progress = {})
    {call : Option Invocation} (behind : call = none → run.after = [])
    (started : StartsWithin around timeout allowed call)
    (all : ∀ s ∈ run.before ++ run.after, ready s) {messages : List (Except Error Frame)}
    (sources : ∀ e, .error e ∈ messages → allowed e) {e : Error}
    (failed : (complete around timeout run call messages).2 = .error e) : allowed e := by
  have hdriven := drive_within bound fresh behind started all sources
  rcases hdrive : drive around timeout run call messages with ⟨driven, result⟩
  rw [hdrive] at hdriven
  cases result with
  | error cause =>
      simp only [complete, hdrive, Except.error.injEq] at failed
      exact failed ▸ hdriven
  | ok _ =>
      rw [complete_of_drive hdrive, driven.finish_eq] at failed
      cases hfinish : (Plugin.finishAll (driven.before ++ driven.after)).result with
      | error cause =>
          simp only [hfinish, mapError_error, Except.error.injEq] at failed
          exact failed ▸ bound.reported _ _ (bound.finishAll hdriven hfinish)
      | ok _ =>
          simp only [hfinish, mapError_ok, commit] at failed
          cases hcommit : (Sink.commit driven.finish.1.sink).result with
          | error cause =>
              simp only [hcommit, mapError_error, Except.error.injEq] at failed
              exact failed ▸ bound.reported _ _ (bound.commit _ _ hcommit)
          | ok _ =>
              rw [hcommit] at failed
              cases failed

/-- **A pipeline that may start fails within the bounds of its parts**, if its source does and if a
tool that is not started does. -/
theorem run_within (bound : Run.Bound τ ready allowed) {p : Pipeline σ}
    (prepared : p.prepared around = .ok timeout) (all : ∀ s ∈ p.configured, ready s)
    (started : StartsWithin around timeout allowed (divide p.configured).2.2)
    {source : Source} (sources : ∀ e, .error e ∈ (source.feed around.tree).messages → allowed e)
    {sink : τ} {e : Error} (failed : (p.run around source sink).result = .error e) : allowed e := by
  rw [(run_of_prepared prepared source sink).1, ← configured, ← cancelledEarly] at failed
  have hready : ∀ s ∈ (divide p.configured).1 ++ (divide p.configured).2.1, ready s := by
    rw [divide_append]
    exact all
  have fresh : (p.begun around source sink).progress = {} := rfl
  rcases hcomplete : complete around timeout (p.begun around source sink) (divide p.configured).2.2
    (source.feed around.tree).messages with ⟨last, result⟩
  have hresult := congrArg Prod.snd hcomplete
  simp only [runConfigured] at failed
  rw [begun] at hcomplete
  rw [hcomplete] at failed
  cases result with
  | ok _ => cases failed
  | error cause =>
      cases failed
      exact complete_within bound fresh divide_behind started hready sources hresult

end Pipeline

end Bounds

end Transcode
