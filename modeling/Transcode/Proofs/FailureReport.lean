import Transcode.Proofs.PossibleRuns
/-!
# Failure reports

A run that fails reports the failure with the last frame that was completed. `Error.Reports` relates
a failure to its report, by its kind. The completed frames are defined independently of the run's
own record: a run without a tool completes the frames it moved, and one through a tool those of
which nothing is left to send (`Pump.handedOver`). `Pump.Reaches.lastDone_eq` shows that the pump
records the last such frame correctly in every schedule, and `Pipeline.Runs.failure_eq` that every
report names it.
-/

set_option autoImplicit false

namespace Transcode

namespace Error

/-- The kinds of failures. -/
inductive Kind where
  | duplicateName | pluginNotFound | configuration | validation
  | externalTool | pipeline | cancelled | io | invalidData | unsupported
deriving Repr, DecidableEq

/-- The kind of a failure. -/
def kind : Error → Kind
  | duplicateName _ => .duplicateName
  | pluginNotFound _ => .pluginNotFound
  | configuration _ => .configuration
  | validation _ => .validation
  | externalTool _ _ _ => .externalTool
  | pipeline _ _ => .pipeline
  | cancelled _ => .cancelled
  | io _ => .io
  | invalidData _ => .invalidData
  | unsupported _ => .unsupported

/-- The kind under which a run reports a failure. -/
def Kind.reported : Kind → Kind
  | io | invalidData | unsupported => pipeline
  | kind => kind

/-- Whether a run names the last frame when it reports a failure. -/
def Kind.namesFrame : Kind → Bool
  | duplicateName | pluginNotFound | configuration | validation => false
  | externalTool | pipeline | cancelled | io | invalidData | unsupported => true

/-- The report of a failure after the frame numbered `last`. -/
structure Reports (last : Option Nat) (cause report : Error) : Prop where
  kind_eq : report.kind = cause.kind.reported
  named : cause.kind.namesFrame = true → report.lastSuccessful = last
  unchanged : cause.kind.namesFrame = false → report = cause
  exitCode_eq : report.exitCode = cause.exitCode

theorem reports_toJobFailure (last : Option Nat) (cause : Error) :
    Reports last cause (cause.toJobFailure last) := by
  cases cause with
  | duplicateName | pluginNotFound | configuration | validation =>
      exact ⟨rfl, nofun, fun _ => rfl, rfl⟩
  | externalTool | pipeline | cancelled | io | invalidData | unsupported =>
      exact ⟨rfl, fun _ => rfl, nofun, rfl⟩

end Error

namespace Pump

open PumpEvent (accepted brought outputs permits)

/-! ## Frames handed over -/

/-- The number of images that have to be sent. -/
def load (images : List Frame) : Nat :=
  images.countP fun image => !image.data.isEmpty

theorem load_cons (image : Frame) (images : List Frame) :
    load (image :: images) = load images + if image.data = [] then 0 else 1 := by
  rw [load, List.countP_cons]
  cases h : image.data <;> simp [load]

theorem handedOver_of_empty (frame : Frame) (frames : List Frame) {image : Frame}
    (images : List Frame) (sent : Nat) (empty : image.data = []) :
    handedOver (frame :: frames) (image :: images) sent = frame ::
      handedOver frames images sent := by
  cases sent <;> rw [handedOver, if_pos empty]

theorem handedOver_of_sent (frame : Frame) (frames : List Frame) {image : Frame}
    (images : List Frame) (sent : Nat) (nonempty : image.data ≠ []) :
    handedOver (frame :: frames) (image :: images) (sent + 1) =
      frame :: handedOver frames images sent := by
  rw [handedOver, if_neg nonempty]

/-- With all pieces sent, all frames are handed over. -/
theorem handedOver_of_load_le {frames images : List Frame} (paired : frames.length = images.length)
    {sent : Nat} (enough : load images ≤ sent) : handedOver frames images sent = frames := by
  induction frames generalizing images sent with
  | nil => cases images <;> rfl
  | cons frame frames ih =>
      cases images with
      | nil => cases paired
      | cons image images =>
          have paired' : frames.length = images.length := Nat.succ.inj paired
          rw [load_cons] at enough
          by_cases hempty : image.data = []
          · rw [if_pos hempty] at enough
            rw [handedOver_of_empty frame frames images sent hempty, ih paired' enough]
          · rw [if_neg hempty] at enough
            obtain ⟨more, rfl⟩ : ∃ more, sent = more + 1 := ⟨sent - 1, by omega⟩
            rw [handedOver_of_sent frame frames images more hempty,
              ih paired' (Nat.le_of_succ_le_succ enough)]

/-- While the piece of the last frame waits, all frames in front of it are handed over. -/
theorem handedOver_concat {frames images : List Frame} (paired : frames.length = images.length)
    (frame : Frame) {image : Frame} (nonempty : image.data ≠ []) :
    handedOver (frames ++ [frame]) (images ++ [image]) (load images) = frames := by
  induction frames generalizing images with
  | nil =>
      cases images with
      | nil => simp [handedOver, nonempty, load]
      | cons => cases paired
  | cons first frames ih =>
      cases images with
      | nil => cases paired
      | cons image' images =>
          have rest := ih (Nat.succ.inj paired)
          rw [load_cons, List.cons_append, List.cons_append]
          by_cases hempty : image'.data = []
          · rw [if_pos hempty, Nat.add_zero, handedOver_of_empty first _ _ _ hempty, rest]
          · rw [if_neg hempty, handedOver_of_sent first _ _ _ hempty, rest]

variable {σ τ : Type} [Plugin σ] [Sink τ] {s : Session} {messages : List (Except Error Frame)}
  {events : List PumpEvent} {run : Run σ τ} {tool : String} {p : Pump σ τ}

/-! ## The last frame completed -/

/-- The event by which a piece is sent, and no other, adds one to the pieces sent. -/
theorem sent_length_of_step {p' : Pump σ τ} {event : PumpEvent} (enabled : p.enabled event = true)
    (goes : p.step event = (p', .going)) :
    p'.sent.length = p.sent.length + if event.isPermit then 1 else 0 := by
  cases event with
  | cancel | outputFailed _ | outputClosed => cases goes
  | refused | endOfInput =>
      cases goes
      rfl
  | permit =>
      simp only [Pump.enabled, canSend, Bool.and_eq_true, Option.isSome_iff_exists] at enabled
      obtain ⟨_, ⟨piece, hpending⟩⟩ := enabled
      cases goes
      simp [release, send, hpending, PumpEvent.isPermit]
  | message m =>
      rcases htake : p.take m with ⟨taken, status⟩
      simp only [step, htake, Prod.mk.injEq] at goes
      obtain ⟨rfl, rfl⟩ := goes
      obtain ⟨_, _, _, _, _, _, _, hinput, _⟩ := exists_passes_of_take htake
      have hsent : taken.release.sent = p.sent := congrArg InputSide.sent hinput
      rw [hsent]
      rfl
  | output data =>
      have hsent : p'.sent = p.sent := congrArg InputSide.sent (inputSide_of_output goes)
      rw [hsent]
      rfl

/-- The pieces sent are those that the schedule sends. -/
theorem Reaches.permits_eq (h : Reaches { run, tool } events p) :
    permits events = p.sent.length := by
  induction h with
  | start => rfl
  | step _ enabled goes ih =>
      rw [PumpEvent.permits_concat, ih, sent_length_of_step enabled goes]
  | logged _ _ ih => exact ih

/-- Pending data is the image of the last frame taken. -/
theorem Reaches.exists_concat_of_pending (fresh : run.progress = {})
    (h : Reaches { run, tool } events p) {outs : List Frame} {last : List σ}
    (passes : Plugin.PassesAll run.before (accepted events) outs last) {piece : Nat × Bytes}
    (pending : p.pending = some piece) :
    ∃ front image, outs = front ++ [image] ∧ image.data ≠ [] := by
  induction h generalizing outs last with
  | start => cases pending
  | logged _ _ ih => exact ih passes pending
  | @step events p p' event earlier enabled goes ih =>
      cases event with
      | cancel | outputFailed _ | outputClosed => cases goes
      | permit =>
          cases goes
          exact absurd (p.send_pending.symm.trans pending) (by simp)
      | refused =>
          cases goes
          rw [PumpEvent.accepted_concat] at passes
          exact ih (by simpa [PumpEvent.frame?] using passes) pending
      | endOfInput =>
          simp only [Pump.enabled, canRead, Bool.and_eq_true, Option.isNone_iff_eq_none] at enabled
          cases goes
          exact absurd (enabled.2.symm.trans pending) (by simp)
      | output data =>
          have hpending : p'.pending = p.pending :=
            congrArg InputSide.pending (inputSide_of_output goes)
          rw [PumpEvent.accepted_concat] at passes
          exact ih (by simpa [PumpEvent.frame?] using passes) (hpending.symm.trans pending)
      | message m =>
          simp only [Pump.enabled, canRead, Bool.and_eq_true, Option.isNone_iff_eq_none] at enabled
          rcases htake : p.take m with ⟨taken, status⟩
          simp only [Pump.step, htake, Prod.mk.injEq] at goes
          obtain ⟨rfl, rfl⟩ := goes
          obtain ⟨frame, image, plugins, asked, rfl, _, pass, hinput, _⟩ :=
            exists_passes_of_take htake
          -- the plugins do one thing with the frames, so the last of `outs` is the new image
          obtain ⟨front, images, fed, _⟩ := earlier.exists_fed_drawn fresh
          have passes' := fed.passes.snoc pass
          have haccepted : accepted (events ++ [.message (.ok frame)]) =
            accepted events ++ [frame] :=
            PumpEvent.accepted_concat events _
          rw [haccepted] at passes
          obtain ⟨rfl, _⟩ := passes.unique passes'
          refine ⟨front, image, rfl, ?_⟩
          intro hempty
          have hpending : taken.release.pending = none := by
            have hkept : taken.pending = _ := congrArg InputSide.pending hinput
            rw [if_pos hempty, enabled.2] at hkept
            exact hkept
          exact absurd (hpending.symm.trans pending) (by simp)

/-- In every schedule the pump's note of the last frame completed is right. -/
theorem Reaches.lastDone_eq (fresh : run.progress = {}) (h : Reaches { run, tool } events p)
    {completed : List Frame} (completes : Completed run.before events completed) :
    p.run.progress.lastDone = lastNumber completed := by
  cases completes with
  | @mk outs last passes =>
      obtain ⟨outs', images, fed, _⟩ := h.exists_fed_drawn fresh
      obtain ⟨rfl, rfl⟩ := passes.unique fed.passes
      have paired := passes.length_eq
      have hdone : p.run.progress.lastDone = _ := fed.lastDone_eq
      -- the pieces sent, and the one that waits, are the images that are not empty
      have hload : p.sent.length + p.pending.toList.length = load outs := by
        have hpieces : p.sent.reverse ++ (p.pending.map Prod.snd).toList = _ := fed.pieces
        have hlength := congrArg List.length hpieces
        rw [← List.countP_eq_length_filter, List.countP_map] at hlength
        rw [load]
        cases hpending : p.pending <;> simpa [hpending, Function.comp_def] using hlength
      rw [h.permits_eq, hdone]
      cases hpending : p.pending with
      | none =>
          have enough : load outs ≤ p.sent.length := by
            rw [hpending] at hload
            exact Nat.le_of_eq hload.symm
          rw [handedOver_of_load_le paired enough]
          simp [inputSide, hpending]
      | some piece =>
          obtain ⟨front, image, rfl, nonempty⟩ := h.exists_concat_of_pending fresh passes hpending
          have hsent : p.sent.length = load front := by
            have hlast : load (front ++ [image]) = load front + 1 := by
              simp [load, nonempty]
            rw [hpending, hlast] at hload
            exact Nat.succ.inj hload
          obtain ⟨frames, frame, haccepted⟩ : ∃ frames frame, accepted events = frames ++
            [frame] := by
            rcases List.eq_nil_or_concat (accepted events) with hnil | ⟨frames, frame, hconcat⟩
            · simp [hnil] at paired
            · exact ⟨frames, frame, by rw [hconcat, List.concat_eq_append]⟩
          rw [haccepted] at paired ⊢
          have paired' : frames.length = front.length := by simpa using paired
          rw [hsent, handedOver_concat paired' frame nonempty]
          simp [inputSide, hpending]

end Pump

/-- The results of a run that completed these frames: a failure with its cause and the last of them,
or success with the last of them recorded. -/
inductive Run.Tells {σ τ : Type} (completed : List Frame) :
    Option Error → Run σ τ → Except Error Unit → Prop where
  | failure (cause : Error) (last : Run σ τ) :
      Tells completed (some cause) last (.error (cause.toJobFailure (Pump.lastNumber completed)))
  | success {last : Run σ τ} (noted : last.progress.lastDone = Pump.lastNumber completed) :
      Tells completed none last (.ok ())

section Tells

open Pump (lastNumber)

variable {σ τ : Type} {run : Run σ τ} {completed : List Frame} {cause? : Option Error}
  {last : Run σ τ} {result : Except Error Unit} {disturbed : Prop}
  {messages : List (Except Error Frame)}

theorem Run.tells_resultOf (noted : run.progress.lastDone = lastNumber completed)
    (same : last.progress = run.progress) : last.Tells completed cause? (run.resultOf cause?) := by
  cases cause? with
  | none => exact .success (same ▸ noted)
  | some cause =>
      rw [Run.resultOf, Run.fail, noted]
      exact .failure cause last

variable [Plugin σ] [Sink τ]

/-- A run through a started tool. -/
theorem Pump.Drives.tells (fresh : run.progress = {}) {s : Session}
    (h : Drives disturbed s run messages completed cause? last result) :
    last.Tells completed cause? result := by
  cases h with
  | broken reaches allows enabled expects completes trips fails =>
      have hfails := step_failed_iff.2 trips.fails
      rw [fails, reaches.lastDone_eq fresh completes] at hfails
      cases hfails
      exact .failure _ _
  | exited reaches allows answered unbroken held closed completes lines =>
      exact Run.tells_resultOf (reaches.lastDone_eq fresh completes) rfl

/-- The station behind frames has the number of the last one. -/
theorem Station.MovesAll.last_eq {start station : Station σ τ} {frames images : List Frame}
    (h : start.MovesAll frames images station) :
    station.last = (lastNumber frames).or start.last := by
  induction h with
  | nil => rfl
  | @cons s middle last frame image frames images first _ ih =>
      cases first with
      | mk =>
          rw [ih, lastNumber, lastNumber, List.getLast?_cons]
          cases frames.getLast? <;> rfl

namespace Pipeline

variable {around : Surroundings} {timeout : Nat} {call : Option Invocation}

/-- The frames of a run, with or without a tool. -/
theorem Drives.tells (fresh : run.progress = {}) (behind : call = none → run.after = [])
    (h : Drives disturbed around timeout run messages call completed cause? last result) :
    last.Tells completed cause? result := by
  cases h with
  | @through call _ _ _ _ _ started drives =>
      have fresh' : (run.log (around.tools.launch around.tree timeout call).lines).progress =
        {} := fresh
      exact drives.tells fresh'
  | @unstarted call cause refused =>
      have hfail : run.fail cause = cause.toJobFailure (lastNumber []) := by
        rw [Run.fail, fresh]; rfl
      rw [hfail]
      exact .failure cause _
  | @interrupted _ images rest station asked divided moves calm =>
      have settled : run.Settled := ⟨by rw [fresh], behind rfl⟩
      have hlast : (run.drive (completed.map .ok)).1.progress.lastDone = lastNumber completed := by
        have hstation := (Run.drive_of_calm settled moves calm).2
        have hmoved := moves.last_eq
        rw [← hstation, Run.station, Run.station, fresh] at hmoved
        exact hmoved.trans Option.or_none
      rw [Run.stopCancelled, hlast]
      exact .failure (.cancelled none) _
  | @inProcess _ images rest station stop left divided moves stops =>
      have settled : run.Settled := ⟨by rw [fresh], behind rfl⟩
      have hlast : station.last = lastNumber completed := by
        rw [moves.last_eq, Run.station, fresh]
        exact Option.or_none
      rcases Run.drive_of_moves settled divided moves stops with ⟨e, hfailure, hresult, _⟩ |
        ⟨rfl, hresult, hstation, _, _⟩
      · rw [Stop.failure?_eq, hlast] at hfailure
        obtain ⟨cause, hcause, rfl⟩ := Option.map_eq_some_iff.1 hfailure
        rw [hresult, hcause]
        exact .failure cause _
      · rw [hresult]
        refine .success ?_
        rw [← hlast, ← hstation]
        rfl

/-- A run driven to its end. -/
theorem Completes.tells (fresh : run.progress = {}) (behind : call = none → run.after = [])
    (h : Completes disturbed around timeout run messages call completed cause? last result) :
    last.Tells completed cause? result := by
  cases h with
  | broken drives => exact drives.tells fresh behind
  | @unfinished cause? cause driven drives refused =>
      cases drives.tells fresh behind with
      | success noted =>
          rw [driven.finish_eq, refused, mapError_error, Run.fail, noted]
          exact .failure cause _
  | @uncommitted cause? cause driven drives finished refused =>
      cases drives.tells fresh behind with
      | success noted =>
          have hresult : (commit driven.finish.1).2 = .error (driven.finish.1.fail cause) := by
            rw [commit, driven.finish_sink, refused]
            rfl
          rw [hresult, Run.fail, driven.finish_progress, noted]
          exact .failure cause _
  | @committed cause? driven drives finished taken =>
      cases drives.tells fresh behind with
      | success noted =>
          have hresult : (commit driven.finish.1).2 = .ok () := by
            rw [commit, driven.finish_sink, taken]
            rfl
          rw [hresult]
          refine .success ?_
          have hprogress : (commit driven.finish.1).1.progress = driven.finish.1.progress := rfl
          rw [hprogress, driven.finish_progress, noted]

/-- Every report goes back to what broke the run and to the last frame completed. -/
theorem Runs.failure_eq {p : Pipeline σ} {source : Source} {sink left : τ} {e : Error}
    (h : p.Runs disturbed around timeout source sink completed cause? (.error e) left) :
    ∃ cause, cause? = some cause ∧ e = cause.toJobFailure (lastNumber completed) := by
  cases h with
  | failed completes =>
      cases completes.tells rfl divide_behind with
      | failure cause => exact ⟨cause, rfl, rfl⟩

/-- **A failure report names the last frame completed and keeps the class of the failure.** The run
of a pipeline that may start is one of those in `Runs`, and whenever one of these fails (a source, a
plugin, the sink, a tool, the end of the frames or the commit may fail, or the run may be cancelled)
there is a cause, the report has the last frame completed instead of whatever frame the cause named,
failures of input and output, bad data and unsupported operations become broken runs, failures that
no run causes stay as they are, and the exit status is that of the cause. -/
theorem run_failure_names_last_completed (p : Pipeline σ) (around : Surroundings) (timeout : Nat)
    (prepared : p.prepared around = .ok timeout) (source : Source) (sink : τ) :
    (∃ completed cause?, p.Runs False around timeout source sink completed cause?
      (p.run around source sink).result (p.run around source sink).sink) ∧
    ∀ disturbed completed cause? e left,
      p.Runs disturbed around timeout source sink completed cause? (.error e) left →
      ∃ cause, cause? = some cause ∧ e = cause.toJobFailure (lastNumber completed) ∧
        Error.Reports (lastNumber completed) cause e := by
  refine ⟨exists_runs_run prepared source sink, ?_⟩
  intro disturbed completed cause? e left runs
  obtain ⟨cause, hcause, rfl⟩ := runs.failure_eq
  exact ⟨cause, hcause, rfl, Error.reports_toJobFailure _ cause⟩

/-- The source fails behind a frame with the number 3 and names another frame, which is not
reported. -/
theorem run_failure_names_last_completed_relay :
    ∃ completed cause? e left,
      relay.Runs False { tree := {}, elapsed := "" } Job.defaultToolTimeout
        (.memory [.ok ⟨3, [1, 2]⟩, .error (.pipeline (.other "lost") (some 99)), .ok ⟨4, []⟩] 0)
        ({} : MemorySink) completed cause? (.error e) left ∧
      e.kind = .pipeline ∧ e.lastSuccessful = some 3 ∧ e.exitCode = 4 := by
  have runs : relay.Runs False { tree := {}, elapsed := "" } Job.defaultToolTimeout
      (.memory [.ok ⟨3, [1, 2]⟩, .error (.pipeline (.other "lost") (some 99)), .ok ⟨4, []⟩] 0)
      ({} : MemorySink) [⟨3, [1, 2]⟩] (some (.pipeline (.other "lost") (some 99)))
      (.error (.pipeline (.other "lost") (some 3))) _ :=
    .failed (.broken (.inProcess rfl
      (.cons (.mk rfl (by rintro _ ⟨⟩) (Plugin.passes_of_processAll rfl) rfl) (.nil _))
      (.source _ _ rfl)))
  obtain ⟨cause, hcause, _, reports⟩ := (run_failure_names_last_completed relay
    { tree := {}, elapsed := "" } Job.defaultToolTimeout (prepared_relay _) _ _).2 _ _ _ _ _ runs
  cases hcause
  exact ⟨_, _, _, _, runs, reports.kind_eq, reports.named rfl, reports.exitCode_eq⟩

end Pipeline

end Tells

end Transcode
