import Transcode.Proofs.SinkUse
/-!
# Recorded runs

A run sees nothing of its sink but its answers. So a homomorphism of sinks (`Sink.Hom`) lifts runs:
every run with the image of a sink is the image of a run with the sink itself
(`Pipeline.Runs.exists_of_mapSink`). `Recorded` adds to a sink the frames it took and those it
refused, and its projection is a homomorphism; hence every run can be recorded.
-/

set_option autoImplicit false

namespace Transcode

/-- The same turn, with another state. -/
def Turn.mapState {σ σ' α : Type} (f : σ → σ') (turn : Turn σ α) : Turn σ' α :=
  ⟨turn.result, f turn.state, turn.lines, turn.cancels⟩

/-- A homomorphism of sinks: the images give the same answers and stay images. -/
structure Sink.Hom {τ τ' : Type} [Sink τ] [Sink τ'] (f : τ → τ') : Prop where
  write_eq : ∀ frame s, Sink.write frame (f s) = (Sink.write frame s).mapState f
  commit_eq : ∀ s, Sink.commit (f s) = (Sink.commit s).mapState f
  abort_eq : ∀ s, Sink.abort (f s) = (Sink.abort s).mapState f

/-- A sink with the frames it took and the frames it refused, in their order. -/
structure Recorded (τ : Type) where
  sink : τ
  taken : List Frame := []
  refused : List Frame := []

namespace Recorded

variable {τ : Type}

/-- The record after a write. -/
def note (s : Recorded τ) (frame : Frame) (sink : τ) : Except Error Unit → Recorded τ
  | .ok () => ⟨sink, s.taken ++ [frame], s.refused⟩
  | .error _ => ⟨sink, s.taken, s.refused ++ [frame]⟩

instance [Sink τ] : Sink (Recorded τ) where
  write frame s :=
    (Sink.write frame s.sink).mapState fun sink =>
      s.note frame sink (Sink.write frame s.sink).result
  commit s := (Sink.commit s.sink).mapState fun sink => { s with sink }
  abort s := (Sink.abort s.sink).mapState fun sink => { s with sink }

theorem note_sink (s : Recorded τ) (frame : Frame) (sink : τ) (result : Except Error Unit) :
    (s.note frame sink result).sink = sink := by
  cases result <;> rfl

variable [Sink τ]

/-- The projection of a recorded sink is a homomorphism. -/
theorem hom (τ : Type) [Sink τ] : Sink.Hom (sink : Recorded τ → τ) where
  write_eq frame s := by
    have hstate : (Sink.write frame s).state.sink = (Sink.write frame s.sink).state :=
      note_sink s frame _ _
    rw [Turn.mapState, hstate]
    rfl
  commit_eq _ := rfl
  abort_eq _ := rfl

end Recorded

variable {σ τ τ' : Type} [Plugin σ] [Sink τ] [Sink τ'] {f : τ → τ'}

/-! ## Without a tool -/

namespace Run

/-- The same run with another sink. -/
def mapSink {σ τ τ' : Type} (f : τ → τ') (run : Run σ τ) : Run σ τ' :=
  ⟨run.before, run.after, f run.sink, run.progress, run.cancelled, run.lines⟩

omit [Plugin σ] in
theorem write_mapSink (hom : Sink.Hom f) (run : Run σ τ) (frame : Frame) :
    (run.mapSink f).write frame = Prod.map (mapSink f) id (run.write frame) := by
  simp only [write, mapSink, hom.write_eq, Turn.mapState]
  cases (Sink.write frame run.sink).result <;> rfl

theorem step_mapSink (hom : Sink.Hom f) (run : Run σ τ) (message : Except Error Frame) :
    (run.mapSink f).step message = Prod.map (mapSink f) id (run.step message) := by
  have haccept : (run.mapSink f).progress.accept message = run.progress.accept message := rfl
  simp only [step, haccept]
  rcases run.progress.accept message with e | ⟨frame, progress⟩
  · rfl
  · have hbefore : (Run.applyBefore { run.mapSink f with progress } frame : Run σ τ' × _) =
        Prod.map (mapSink f) id (Run.applyBefore { run with progress } frame) := rfl
    simp only [hbefore]
    rcases Run.applyBefore { run with progress } frame with ⟨middle, e | out⟩
    · rfl
    · simp only [Prod.map, id, write_mapSink hom]
      rcases middle.write out with ⟨last, e | _⟩ <;> rfl

theorem drive_mapSink (hom : Sink.Hom f) (run : Run σ τ) (messages : List (Except Error Frame)) :
    (run.mapSink f).drive messages = Prod.map (mapSink f) id (run.drive messages) := by
  have hcancelled : ∀ run : Run σ τ, (run.mapSink f).cancelled = run.cancelled := fun _ => rfl
  induction messages generalizing run with
  | nil =>
      simp only [drive, hcancelled]
      cases run.cancelled <;> rfl
  | cons message rest ih =>
      simp only [drive, hcancelled, step_mapSink hom]
      cases run.cancelled with
      | true => rfl
      | false =>
          rcases run.step message with ⟨next, e | _⟩
          · rfl
          · exact ih next

omit [Sink τ] [Sink τ'] in
theorem finish_mapSink (run : Run σ τ) :
    (run.mapSink f).finish = Prod.map (mapSink f) id run.finish := by
  have hbefore : (run.mapSink f).before = run.before := rfl
  simp only [finish, hbefore]
  cases (Plugin.finishAll run.before).result <;> rfl

end Run

/-! ## Through a tool -/

namespace Pump

/-- The same pump with another sink. -/
def mapSink {σ τ τ' : Type} (f : τ → τ') (p : Pump σ τ) : Pump σ τ' :=
  ⟨p.run.mapSink f, p.tool, p.pending, p.inputOpen, p.inputDone, p.draining,
    p.outputSequence, p.sent, p.sentSize, p.received⟩

omit [Sink τ] [Sink τ'] in
theorem take_mapSink (p : Pump σ τ) (message : Except Error Frame) :
    (p.mapSink f).take message = Prod.map (mapSink f) id (p.take message) := by
  have haccept : (p.mapSink f).run.progress.accept message = p.run.progress.accept message := rfl
  simp only [take, haccept]
  rcases p.run.progress.accept message with e | ⟨frame, progress⟩
  · rfl
  · have hbefore :
        (Run.applyBefore { (p.mapSink f).run with progress } frame : Run σ τ' × _) =
          Prod.map (Run.mapSink f) id (Run.applyBefore { p.run with progress } frame) := rfl
    simp only [hbefore]
    rcases Run.applyBefore { p.run with progress } frame with ⟨run, e | out⟩
    · rfl
    · simp only [Prod.map, id]
      split <;> rfl

theorem emit_mapSink (hom : Sink.Hom f) (p : Pump σ τ) (data : Bytes) :
    (p.mapSink f).emit data = Prod.map (mapSink f) id (p.emit data) := by
  have hafter : (p.mapSink f).run.applyAfter ⟨p.outputSequence + 1, data⟩ =
      Prod.map (Run.mapSink f) id (p.run.applyAfter ⟨p.outputSequence + 1, data⟩) := rfl
  have hsequence : (p.mapSink f).outputSequence = p.outputSequence := rfl
  simp only [emit, hsequence, hafter]
  rcases p.run.applyAfter ⟨p.outputSequence + 1, data⟩ with ⟨run, e | out⟩
  · rfl
  · simp only [Prod.map, id, Run.write_mapSink hom]
    rcases run.write out with ⟨run, e | _⟩ <;> rfl

theorem step_mapSink (hom : Sink.Hom f) (p : Pump σ τ) (event : PumpEvent) :
    (p.mapSink f).step event = Prod.map (mapSink f) id (p.step event) := by
  cases event with
  | cancel | refused | endOfInput | outputFailed _ | outputClosed => rfl
  | permit =>
      have hpending : (p.mapSink f).pending = p.pending := rfl
      simp only [step, send, hpending]
      cases p.pending <;> rfl
  | message m =>
      simp only [step, take_mapSink]
      rfl
  | output data =>
      have hdraining : (p.mapSink f).draining = p.draining := rfl
      simp only [step, hdraining]
      cases p.draining with
      | true => rfl
      | false => exact p.emit_mapSink hom data

omit [Plugin σ] [Sink τ] [Sink τ'] in
theorem exists_of_map_eq {α β γ : Type} {g : α → β} {x : α × γ} {b : β} {c : γ}
    (h : Prod.map g id x = (b, c)) : ∃ a, x = (a, c) ∧ g a = b := by
  obtain ⟨a, c'⟩ := x
  cases h
  exact ⟨a, rfl, rfl⟩

/-- A schedule of the image is the image of a schedule. -/
theorem Reaches.exists_of_mapSink (hom : Sink.Hom f) {start : Pump σ τ} {events : List PumpEvent}
    {q : Pump σ τ'} (h : Reaches (start.mapSink f) events q) :
    ∃ p, Reaches start events p ∧ p.mapSink f = q := by
  induction h with
  | start => exact ⟨start, .start, rfl⟩
  | step _ enabled goes ih =>
      obtain ⟨p, reaches, rfl⟩ := ih
      rw [step_mapSink hom] at goes
      obtain ⟨p', hstep, rfl⟩ := exists_of_map_eq goes
      exact ⟨p', reaches.step enabled hstep, rfl⟩
  | logged _ lines ih =>
      obtain ⟨p, reaches, rfl⟩ := ih
      exact ⟨_, reaches.logged lines, rfl⟩

theorem Trips.of_mapSink (hom : Sink.Hom f) {p : Pump σ τ} {event : PumpEvent} {cause : Error}
    (h : Trips (p.mapSink f) event cause) : Trips p event cause := by
  cases h with
  | cancelled => exact .cancelled
  | source => exact .source _
  | order last notAbove => exact .order last notAbove
  | before precedes refuses => exact .before precedes refuses
  | after live refuses => exact .after live refuses
  | sink live passes refused =>
      have hsink : (p.mapSink f).run.sink = f p.run.sink := rfl
      rw [hsink, hom.write_eq] at refused
      exact .sink live passes refused
  | output => exact .output _

theorem Drives.exists_of_mapSink (hom : Sink.Hom f) {disturbed : Prop} {s : Session}
    {run : Run σ τ} {messages : List (Except Error Frame)} {completed : List Frame}
    {cause? : Option Error} {last' : Run σ τ'} {result : Except Error Unit}
    (h : Drives disturbed s (run.mapSink f) messages completed cause? last' result) :
    ∃ last, Drives disturbed s run messages completed cause? last result ∧
      last.mapSink f = last' := by
  have hstart : ({ run := run.mapSink f, tool := s.tool } : Pump σ τ') =
      ({ run, tool := s.tool } : Pump σ τ).mapSink f := rfl
  cases h with
  | broken reaches allows enabled expects completes trips fails =>
      rw [hstart] at reaches
      obtain ⟨p, reaches', rfl⟩ := reaches.exists_of_mapSink hom
      rw [step_mapSink hom] at fails
      obtain ⟨p', hstep, rfl⟩ := exists_of_map_eq fails
      exact ⟨p'.run, .broken reaches' allows enabled expects completes (trips.of_mapSink hom) hstep,
        rfl⟩
  | exited reaches allows answered unbroken held closed completes lines =>
      rw [hstart] at reaches
      obtain ⟨p, reaches', rfl⟩ := reaches.exists_of_mapSink hom
      exact ⟨p.run.log lines, .exited reaches' allows answered unbroken held closed completes lines,
        rfl⟩

end Pump

/-! ## Stations -/

namespace Station

/-- The same station with another sink. -/
def mapSink {σ τ τ' : Type} (f : τ → τ') (s : Station σ τ) : Station σ τ' :=
  ⟨s.plugins, f s.sink, s.last, s.cancelled⟩

theorem Moves.exists_of_mapSink (hom : Sink.Hom f) {s : Station σ τ} {next' : Station σ τ'}
    {frame image : Frame} (h : Moves (s.mapSink f) frame image next') :
    ∃ next, Moves s frame image next ∧ next.mapSink f = next' := by
  have hsink : (s.mapSink f).sink = f s.sink := rfl
  cases h with
  | mk calm precedes passes taken =>
      rw [hsink, hom.write_eq] at taken
      refine ⟨_, .mk calm precedes passes taken, ?_⟩
      rw [hsink, hom.write_eq]
      rfl

theorem MovesAll.exists_of_mapSink (hom : Sink.Hom f) {s : Station σ τ} {last' : Station σ τ'}
    {frames images : List Frame} (h : MovesAll (s.mapSink f) frames images last') :
    ∃ last, MovesAll s frames images last ∧ last.mapSink f = last' := by
  generalize hstart : s.mapSink f = start at h
  induction h generalizing s with
  | nil => exact ⟨s, .nil s, hstart⟩
  | cons first _ ih =>
      subst hstart
      obtain ⟨middle, first', rfl⟩ := first.exists_of_mapSink hom
      obtain ⟨last, rest, rfl⟩ := ih rfl
      exact ⟨last, .cons first' rest, rfl⟩

theorem Stops.exists_of_mapSink (hom : Sink.Hom f) {s : Station σ τ}
    {messages : List (Except Error Frame)} {stop : Stop} {left' : τ'}
    (h : Stops (s.mapSink f) messages stop left') : ∃ left, Stops s messages stop left := by
  cases h with
  | cancelled _ asked => exact ⟨_, .cancelled _ asked⟩
  | endOfInput calm => exact ⟨_, .endOfInput calm⟩
  | source e rest calm => exact ⟨_, .source e rest calm⟩
  | order frame rest calm last notAbove => exact ⟨_, .order frame rest calm last notAbove⟩
  | plugin rest calm precedes refuses => exact ⟨_, .plugin rest calm precedes refuses⟩
  | sink rest calm precedes passes refused =>
      have hsink : (s.mapSink f).sink = f s.sink := rfl
      rw [hsink, hom.write_eq] at refused
      exact ⟨_, .sink rest calm precedes passes refused⟩

end Station

/-! ## Whole runs -/

namespace Pipeline

variable {disturbed : Prop} {around : Surroundings} {timeout : Nat} {run : Run σ τ}
  {messages : List (Except Error Frame)} {call : Option Invocation} {completed : List Frame}
  {cause? : Option Error} {last' : Run σ τ'} {result : Except Error Unit}

theorem Drives.exists_of_mapSink (hom : Sink.Hom f)
    (h : Drives disturbed around timeout (run.mapSink f) messages call completed cause?
      last' result) :
    ∃ last, Drives disturbed around timeout run messages call completed cause? last result ∧
      last.mapSink f = last' := by
  have hstation : (run.mapSink f).station = run.station.mapSink f := rfl
  cases h with
  | unstarted refused => exact ⟨_, .unstarted refused, rfl⟩
  | through started drives =>
      have hlogged (lines : List LogLine) : (run.mapSink f).log lines =
        (run.log lines).mapSink f := rfl
      rw [hlogged] at drives
      obtain ⟨last, drives', rfl⟩ := drives.exists_of_mapSink hom
      exact ⟨last, .through started drives', rfl⟩
  | interrupted asked divided moves calm =>
      rw [hstation] at moves
      obtain ⟨station, moves', rfl⟩ := moves.exists_of_mapSink hom
      rw [Run.drive_mapSink hom]
      exact ⟨_, .interrupted asked divided moves' calm, rfl⟩
  | inProcess divided moves stops =>
      rw [hstation] at moves
      obtain ⟨station, moves', rfl⟩ := moves.exists_of_mapSink hom
      obtain ⟨left, stops'⟩ := stops.exists_of_mapSink hom
      rw [Run.drive_mapSink hom]
      exact ⟨_, .inProcess divided moves' stops', rfl⟩

omit [Plugin σ] in
theorem commit_mapSink (hom : Sink.Hom f) (run : Run σ τ) :
    commit (run.mapSink f) = Prod.map (Run.mapSink f) id (commit run) := by
  have hsink : (run.mapSink f).sink = f run.sink := rfl
  simp only [commit, hsink, hom.commit_eq]
  rfl

theorem Completes.exists_of_mapSink (hom : Sink.Hom f)
    (h : Completes disturbed around timeout (run.mapSink f) messages call completed cause? last'
      result) :
    ∃ last, Completes disturbed around timeout run messages call completed cause? last result ∧
      last.mapSink f = last' := by
  cases h with
  | broken drives =>
      obtain ⟨last, drives', rfl⟩ := drives.exists_of_mapSink hom
      exact ⟨last, .broken drives', rfl⟩
  | unfinished drives refused =>
      obtain ⟨driven, drives', rfl⟩ := drives.exists_of_mapSink hom
      rw [Run.finish_mapSink]
      exact ⟨_, .unfinished drives' refused, rfl⟩
  | uncommitted drives finished refused =>
      obtain ⟨driven, drives', rfl⟩ := drives.exists_of_mapSink hom
      have hsink : (driven.mapSink f).sink = f driven.sink := rfl
      rw [hsink, hom.commit_eq] at refused
      rw [Run.finish_mapSink, Prod.map_fst, commit_mapSink hom]
      exact ⟨_, .uncommitted drives' finished refused, rfl⟩
  | committed drives finished taken =>
      obtain ⟨driven, drives', rfl⟩ := drives.exists_of_mapSink hom
      have hsink : (driven.mapSink f).sink = f driven.sink := rfl
      rw [hsink, hom.commit_eq] at taken
      rw [Run.finish_mapSink, Prod.map_fst, commit_mapSink hom]
      exact ⟨_, .committed drives' finished taken, rfl⟩

/-- **A run with the image of a sink is the image of a run with the sink.** -/
theorem Runs.exists_of_mapSink (hom : Sink.Hom f) {p : Pipeline σ} {source : Source} {sink : τ}
    {left' : τ'} {result : Except Error Summary}
    (h : p.Runs disturbed around timeout source (f sink) completed cause? result left') :
    ∃ left, p.Runs disturbed around timeout source sink completed cause? result left ∧
      f left = left' := by
  have hbegun : p.begun around source (f sink) = (p.begun around source sink).mapSink f := rfl
  cases h with
  | failed completes =>
      rw [hbegun] at completes
      obtain ⟨last, completes', rfl⟩ := completes.exists_of_mapSink hom
      have hsink : (last.mapSink f).sink = f last.sink := rfl
      rw [hsink, hom.abort_eq]
      exact ⟨_, .failed completes', rfl⟩
  | succeeded completes =>
      rw [hbegun] at completes
      obtain ⟨last, completes', rfl⟩ := completes.exists_of_mapSink hom
      exact ⟨_, .succeeded completes', rfl⟩

end Pipeline

end Transcode
