import Transcode.Proofs.Streaming
import Transcode.Proofs.WholeInput
/-!
# Evidence at the exit of a tool

When a tool has closed its output, the evidence may show several failures at once: a tool that dies
early also breaks its input and writes nothing. `Session.Shows` lists them independently of each
other, and the one of the lowest rank is reported (`Session.Judges`). The machine judges so after
its pump is done (`Pump.Returns.drive_iff`), and a run succeeds only if the evidence shows no
failure. So a successful run through a tool took every frame, sent all of it, heard all of the
output and read the whole input (`Pipeline.Fulfils`), whatever the order in which source, tool and
user acted.
-/

set_option autoImplicit false

namespace Transcode

/-- The order in which failures of a tool that was started count. -/
def ToolFailure.rank : ToolFailure → Nat
  | .timeout _ => 0
  | .exitStatus _ => 1
  | .io _ => 2
  | .noOutput => 3
  | .inputCutShort => 4
  | .notFound | .spawn _ => 5

namespace Session

/-! ## Evidence -/

/-- The evidence at the end of a tool: its ending, the fault of the writer that fed it, the bytes
received, and whether all input was sent. -/
structure Evidence where
  ending : Ending
  fault : Option IoError
  received : Nat
  complete : Bool

/-- The failures shown by evidence, each independent of the others. -/
inductive Shows (s : Session) (e : Evidence) : ToolFailure → Prop where
  | late (stays : e.ending = .silent ∨ e.ending = .lingering) : Shows s e (.timeout s.idleTimeout)
  | status {code : Int} (exits : e.ending = .exited code) (bad : code ≠ 0) :
      Shows s e (.exitStatus (some code))
  | signal (killed : e.ending = .signalled) : Shows s e (.exitStatus none)
  | writer {cause : IoError} (broke : e.fault = some cause) : Shows s e (.io cause)
  | mute (nothing : e.received = 0) : Shows s e .noOutput
  | cutShort (missing : e.complete = false) : Shows s e .inputCutShort

/-- The judgement on evidence: the first failure it shows, and none if and only if it shows none. -/
def Judges (s : Session) (e : Evidence) : Option ToolFailure → Prop
  | none => ∀ failure, ¬s.Shows e failure
  | some failure => s.Shows e failure ∧ ∀ other, s.Shows e other → failure.rank ≤ other.rank

/-- The result of a run whose tool failed or did not, with the last frame completed. -/
def report (s : Session) (last : Option Nat) : Option ToolFailure → Except Error Unit
  | none => .ok ()
  | some failure => .error (.externalTool s.tool failure last)

variable {s : Session} {e : Evidence}

/-- No two things of one rank speak against a run. -/
theorem Shows.eq_of_rank {failure other : ToolFailure} (h : s.Shows e failure)
    (h' : s.Shows e other)
    (rank : failure.rank = other.rank) : failure = other := by
  cases h <;> cases h' <;> simp_all [ToolFailure.rank]

/-- One thing is reported. -/
theorem Judges.unique {failure? other? : Option ToolFailure} (h : s.Judges e failure?)
    (h' : s.Judges e other?) : failure? = other? := by
  cases failure? with
  | none =>
      cases other? with
      | none => rfl
      | some other => exact absurd h'.1 (h other)
  | some failure =>
      cases other? with
      | none => exact absurd h.1 (h' failure)
      | some other =>
          have hrank := Nat.le_antisymm (h.2 other h'.1) (h'.2 failure h.1)
          exact congrArg some (h.1.eq_of_rank h'.1 hrank)

/-- The exit and then the input decide as the evidence is ranked. -/
theorem exists_judges (s : Session) (e : Evidence) :
    ∃ failure?, s.Judges e failure? ∧
      s.cause? e.ending e.fault e.received e.complete = failure?.map s.failure := by
  obtain ⟨ending, fault, received, complete⟩ := e
  cases ending with
  | silent | lingering =>
      exact ⟨some (.timeout s.idleTimeout), ⟨.late (by simp), fun _ _ => Nat.zero_le _⟩, rfl⟩
  | signalled =>
      refine ⟨some (.exitStatus none), ⟨.signal rfl, ?_⟩, rfl⟩
      intro other hother
      cases hother <;> simp_all [ToolFailure.rank]
  | exited code =>
      by_cases hcode : code = 0
      · subst hcode
        cases fault with
        | some cause =>
            refine ⟨some (.io cause), ⟨.writer rfl, ?_⟩, rfl⟩
            intro other hother
            cases hother <;> simp_all [ToolFailure.rank]
        | none =>
            by_cases hreceived : received = 0
            · refine ⟨some .noOutput, ⟨.mute hreceived, ?_⟩, by simp [cause?, verdict, hreceived]⟩
              intro other hother
              cases hother <;> simp_all [ToolFailure.rank]
            · cases complete with
              | false =>
                  refine ⟨some .inputCutShort,
                    ⟨.cutShort rfl, ?_⟩, by simp [cause?, verdict, hreceived]⟩
                  intro other hother
                  cases hother <;> simp_all [ToolFailure.rank]
              | true =>
                  refine ⟨none, ?_, by simp [cause?, verdict, hreceived]⟩
                  intro failure hshows
                  cases hshows <;> simp_all
      · refine ⟨some (.exitStatus (some code)),
          ⟨.status rfl hcode, ?_⟩, by simp [cause?, verdict, hcode]⟩
        intro other hother
        cases hother <;> simp_all [ToolFailure.rank]

theorem failure_injective (s : Session) : Function.Injective s.failure := by
  intro failure other h
  exact (Error.externalTool.inj h).2.1

/-- The cause of a run is the judgement on its evidence. -/
theorem cause?_eq_iff {failure? : Option ToolFailure} :
    s.cause? e.ending e.fault e.received e.complete = failure?.map s.failure ↔
      s.Judges e failure? := by
  obtain ⟨first?, judges, hcause⟩ := s.exists_judges e
  rw [hcause]
  constructor
  · intro h
    rwa [← Option.map_injective s.failure_injective h]
  · intro h
    rw [judges.unique h]

theorem report_injective (s : Session) (last : Option Nat) :
    Function.Injective (s.report last) := by
  intro failure? other? h
  cases failure? <;> cases other? <;> simp_all [report]

end Session

/-- A run reports a failure of a tool with the last frame that it completed. -/
theorem Run.resultOf_failure {σ τ : Type} (run : Run σ τ) (s : Session)
    (failure? : Option ToolFailure) :
    run.resultOf (failure?.map s.failure) = s.report run.progress.lastDone failure? := by
  cases failure? <;> rfl

namespace Pump

open PumpEvent (accepted brought outputs)

variable {σ τ : Type} [Plugin σ] [Sink τ] {s : Session} {run : Run σ τ}
  {messages : List (Except Error Frame)} {events : List PumpEvent} {q : Pump σ τ}

/-! ## The pump of the machine -/

/-- The pump of the machine is done: the tool was fed as far as it takes its input, and then all of
its output was received, to the end. -/
inductive Returns (s : Session) (run : Run σ τ) (messages : List (Except Error Frame)) :
    Pump σ τ → Ending → Bool → Prop where
  | mk {p q : Pump σ τ} {output : Bytes} {ending : Ending} {complete : Bool}
      (fed : ({ run, tool := s.tool } : Pump σ τ).feed s messages = (p, .going))
      (reply : s.behaviour (s.inputRead p.input) = (output, ending)) (closes : ending ≠ .silent)
      (received : p.collect .outputClosed (Session.outputChunks output) = (q, .done complete)) :
      Returns s run messages q ending complete

/-- After the pump the exit of the tool decides, and then whether all input was sent. -/
theorem Returns.exists_drive_eq {ending : Ending} {complete : Bool}
    (h : Returns s run messages q ending complete) :
    ∃ lines, Pump.drive s run messages = (q.run.log lines,
      q.run.resultOf (s.cause? ending (s.writeFault? q.sentSize) q.received complete)) := by
  cases h with
  | mk fed reply closes received =>
      simp only [Pump.drive, fed, reply, closes, if_false, received]
      exact ⟨_, rfl⟩

/-- The result after the pump is what the evidence shows first, and nothing else. -/
theorem Returns.drive_iff {ending : Ending} {complete : Bool}
    (h : Returns s run messages q ending complete) (failure? : Option ToolFailure) :
    (Pump.drive s run messages).2 = s.report q.run.progress.lastDone failure? ↔
      s.Judges ⟨ending, s.writeFault? q.sentSize, q.received, complete⟩ failure? := by
  obtain ⟨lines, hdrive⟩ := h.exists_drive_eq
  obtain ⟨first?, judges, hcause⟩ :=
    s.exists_judges ⟨ending, s.writeFault? q.sentSize, q.received, complete⟩
  have hresult : (Pump.drive s run messages).2 = s.report q.run.progress.lastDone first? := by
    rw [hdrive, hcause]
    exact q.run.resultOf_failure s first?
  rw [hresult]
  constructor
  · intro hreport
    rwa [← s.report_injective _ hreport]
  · intro hjudges
    rw [judges.unique hjudges]

/-! ## Any schedule -/

/-- The tool closes its output after a schedule. The source ends behind its last message, and the
tool has written what it writes for the input it read; nothing else is asked: the source may have
more, and the tool may refuse its input whether it reads or not. -/
structure Closes (s : Session) (run : Run σ τ) (messages : List (Except Error Frame))
    (events : List PumpEvent) (q : Pump σ τ) (complete : Bool) : Prop where
  reaches : Reaches { run, tool := s.tool } events q
  ended : .endOfInput ∈ events → brought events = messages
  answered : (outputs events).flatten = (s.behaviour (s.inputRead q.input)).1
  closed : (q.step .outputClosed).2 = .done complete

omit [Plugin σ] [Sink τ] in
/-- The evidence of a pump whose tool has closed its output. -/
def evidence (q : Pump σ τ) (s : Session) (fault : Option IoError) (complete : Bool) :
    Session.Evidence :=
  ⟨(s.behaviour (s.inputRead q.input)).2, fault, q.received, complete⟩

/-- All that a run through a tool is there for: every frame of the source was taken, what the
plugins made of them was sent in full and the writer did not fail, the tool exited well, and it
wrote something, all of which passed the plugins behind it into the sink. -/
structure Accomplished (s : Session) (run : Run σ τ) (messages : List (Except Error Frame))
    (events : List PumpEvent) (q : Pump σ τ) (fault : Option IoError) (outs images : List Frame) :
    Prop where
  taken : messages = (accepted events).map .ok
  counted : q.run.progress.framesIn = (accepted events).length
  passes : Plugin.PassesAll run.before (accepted events) outs q.run.before
  sent : q.sent.reverse = (outs.map Frame.data).filter fun data => !data.isEmpty
  unbroken : fault = none
  heard : Plugin.PassesAll run.after (Frame.number 1 (outputs events)) images q.run.after
  written : Sink.Takes run.sink images q.run.sink
  answered : (outputs events).flatten = (s.behaviour (s.inputRead q.input)).1
  spoke : (outputs events).flatten ≠ []
  exited : (s.behaviour (s.inputRead q.input)).2 = .exited 0

/-- A schedule that goes on brought frames only. -/
theorem Reaches.brought_eq {start p : Pump σ τ} (h : Reaches start events p) :
    brought events = (accepted events).map .ok := by
  induction h with
  | start => rfl
  | logged _ _ ih => exact ih
  | @step events p p' event _ _ goes ih =>
      have hone : brought [event] = event.frame?.toList.map .ok := by
        cases event with
        | cancel | permit | refused | endOfInput | output _ | outputFailed _ | outputClosed => rfl
        | message m =>
            rcases htake : p.take m with ⟨taken, status⟩
            simp only [Pump.step, htake, Prod.mk.injEq] at goes
            obtain ⟨rfl, rfl⟩ := goes
            obtain ⟨frame, _, _, _, rfl, _⟩ := exists_passes_of_take htake
            rfl
      rw [PumpEvent.brought_append, PumpEvent.accepted_concat, List.map_append, ih, hone]

/-- A run whose evidence shows no failure fulfils its task. -/
theorem Closes.exists_accomplished {fault : Option IoError} {complete : Bool}
    (fresh : run.progress = {})
    (h : Closes s run messages events q complete)
    (clean : s.Judges (q.evidence s fault complete) none) :
    complete = true ∧ ∃ outs images, Accomplished s run messages events q fault outs images := by
  have hcomplete : complete = true := by
    cases complete with
    | true => rfl
    | false => exact absurd (.cutShort rfl) (clean .inputCutShort)
  -- all input was sent, so the source reached its end and the tool never refused
  have hall := (step_done_iff.1 h.closed).2
  rw [hcomplete, eq_comm, Bool.and_eq_true, Bool.not_eq_true', Pump.complete, Bool.and_eq_true,
    Option.isNone_iff_eq_none] at hall
  obtain ⟨hlive, hdone, hpending⟩ := hall
  obtain ⟨outs, images, fed, drawn⟩ := h.reaches.exists_fed_drawn fresh
  have ended : .endOfInput ∈ events := fed.done_iff.1 hdone
  have live : .refused ∉ events := by
    intro hrefused
    exact Bool.false_ne_true (hlive.symm.trans (drawn.draining_iff.2 hrefused))
  refine ⟨hcomplete, outs, images, ?_⟩
  constructor
  case taken => rw [← h.reaches.brought_eq, h.ended ended]
  case counted => exact fed.framesIn_eq
  case passes => exact fed.passes
  case sent =>
    have hpieces : q.sent.reverse ++ (q.pending.map Prod.snd).toList = _ := fed.pieces
    rw [hpending] at hpieces
    simpa using hpieces
  case unbroken =>
    cases fault with
    | none => rfl
    | some cause => exact absurd (.writer rfl) (clean (.io cause))
  case heard =>
    rw [← PumpEvent.heard_eq_outputs live]
    exact drawn.passes
  case written => exact drawn.takes
  case answered => exact h.answered
  case spoke =>
    intro hempty
    apply clean .noOutput
    refine .mute ?_
    exact h.reaches.received_eq.trans (by rw [hempty]; rfl)
  case exited =>
    cases hending : (s.behaviour (s.inputRead q.input)).2 with
    | silent => exact absurd (.late (.inl hending)) (clean _)
    | lingering => exact absurd (.late (.inr hending)) (clean _)
    | signalled => exact absurd (.signal hending) (clean _)
    | exited code =>
        by_cases hcode : code = 0
        · rw [hcode]
        · exact absurd (.status hending hcode) (clean _)

/-- The evidence of a successful run through a tool shows no failure. -/
theorem Drives.exists_closes {disturbed : Prop} {completed : List Frame} {cause? : Option Error}
    {last : Run σ τ} (h : Drives disturbed s run messages completed cause? last (.ok ())) :
    ∃ events q fault complete lines, Closes s run messages events q complete ∧
      s.Judges (q.evidence s fault complete) none ∧ last = q.run.log lines := by
  generalize hresult : (Except.ok () : Except Error Unit) = result at h
  cases h with
  | broken => cases hresult
  | @exited events q _ complete fault reaches allows answered unbroken held closed _ lines =>
      have hnone : s.cause? (s.behaviour (s.inputRead q.input)).2 fault q.received complete =
          none := by
        cases hcause : s.cause? (s.behaviour (s.inputRead q.input)).2 fault q.received complete with
        | none => rfl
        | some cause =>
            rw [hcause] at hresult
            cases hresult
      have clean : s.Judges (q.evidence s fault complete) none := Session.cause?_eq_iff.1 hnone
      exact ⟨events, q, fault, complete, lines, ⟨reaches, allows.ended, answered, closed⟩,
        clean, rfl⟩

/-- The machine feeds the tool as far as it takes its input, or an event fails. -/
theorem feed_cases (s : Session) (messages : List (Except Error Frame))
    (fresh : run.progress = {}) :
    (∃ p, ({ run, tool := s.tool } : Pump σ τ).feed s messages = (p, .going) ∧
      Supplied s { run, tool := s.tool } messages p) ∨
    ∃ p e, ({ run, tool := s.tool } : Pump σ τ).feed s messages = (p, .failed e) := by
  have reads : Reads { run, tool := s.tool } [] ({ run, tool := s.tool } : Pump σ τ) :=
    ⟨.start, by simp, by simp, rfl, rfl⟩
  rcases reads.feed fresh (.start s messages) rfl with supplied | ⟨p, e, hfeed, _⟩
  · exact .inl supplied
  · exact .inr ⟨p, e, hfeed⟩

/-- The machine up to the end of its pump is one of the schedules. -/
theorem Returns.exists_closes {ending : Ending} {complete : Bool} (fresh : run.progress = {})
    (h : Returns s run messages q ending complete) :
    ending = (s.behaviour (s.inputRead q.input)).2 ∧
      ∃ events, Closes s run messages events q complete := by
  cases h with
  | @mk p _ output _ _ fed reply _ received =>
      rcases feed_cases s messages fresh with ⟨_, hfeed, ⟨reaches, allows, unheard, _⟩⟩ |
        ⟨_, e, hfeed⟩
      · obtain rfl := (Prod.mk.inj (hfeed.symm.trans fed)).1
        rcases reaches.collect allows (Session.outputChunks output) .outputClosed with
          ⟨last, hcollect, reaches', allows', hinput⟩ | ⟨_, e, hcollect, _⟩
        · -- a cancelled run is not done, so the last event is that the tool closes its output
          have hnext : last.next .outputClosed = (q, .done complete) := hcollect.symm.trans received
          rw [next] at hnext
          split at hnext
          · cases hnext
          · have closed : (last.step .outputClosed).2 = .done complete := by rw [hnext]
            obtain rfl : last = q := (Prod.mk.inj hnext).1
            have hreply : s.behaviour (s.inputRead last.input) = (output, ending) := by
              rw [input_of_inputSide hinput, reply]
            refine ⟨by rw [hreply], _, reaches', allows'.ended, ?_, closed⟩
            rw [PumpEvent.outputs_append, unheard, List.nil_append, outputs_map_output, hreply]
            exact Session.flatten_outputChunks output
        · cases hcollect.symm.trans received
      · cases hfeed.symm.trans fed

/-- A run through a tool ends well only where the pump of the machine is done. -/
theorem exists_returns_of_drive (fresh : run.progress = {})
    (succeeds : (Pump.drive s run messages).2 = .ok ()) :
    ∃ q ending complete, Returns s run messages q ending complete := by
  rcases feed_cases s messages fresh with ⟨p, hfeed, ⟨reaches, allows, unheard, whole⟩⟩ |
    ⟨p, e, hfeed⟩
  · simp only [Pump.drive, hfeed] at succeeds
    by_cases silent : (s.behaviour (s.inputRead p.input)).2 = .silent
    · -- a tool that never closes its output runs into its time limit
      obtain ⟨q, e, hcollect, _⟩ :=
        (reaches.logged [s.idleLine]).exists_drives_silent fresh allows silent
        (Session.outputChunks (s.behaviour (s.inputRead p.input)).1)
      simp only [silent, if_true, hcollect] at succeeds
      cases succeeds
    · simp only [silent, if_false] at succeeds
      rcases reaches.exists_drives_closed fresh allows unheard whole with ⟨q, e, hcollect, _⟩ |
        ⟨q, complete, hcollect, _⟩
      · simp only [hcollect] at succeeds
        cases succeeds
      · exact ⟨q, _, complete, .mk hfeed rfl silent hcollect⟩
  · simp only [Pump.drive, hfeed] at succeeds
    cases succeeds

/-- The machine succeeds only if the evidence shows no failure. -/
theorem exists_closes_of_drive {driven : Run σ τ} (fresh : run.progress = {})
    (succeeds : Pump.drive s run messages = (driven, .ok ())) :
    ∃ events q complete lines, Closes s run messages events q complete ∧
      s.Judges (q.evidence s (s.writeFault? q.sentSize) complete) none ∧
        driven = q.run.log lines := by
  have hresult : (Pump.drive s run messages).2 = .ok () := by rw [succeeds]
  obtain ⟨q, ending, complete, returns⟩ := exists_returns_of_drive fresh hresult
  obtain ⟨lines, hdrive⟩ := returns.exists_drive_eq
  obtain ⟨rfl, events, closes⟩ := returns.exists_closes fresh
  have clean := (returns.drive_iff none).1 hresult
  exact ⟨events, q, complete, lines, closes, clean, (Prod.mk.inj (succeeds.symm.trans hdrive)).1⟩

end Pump

namespace Pipeline

variable {σ τ : Type} [Plugin σ] [Sink τ] {p : Pipeline σ} {around : Surroundings} {timeout : Nat}
  {source : Source} {sink : τ} {call : Invocation} {summary : Summary} {left : τ}

/-! ## Successful runs -/

/-- A successful completion is a successful drive, finished and committed. -/
theorem exists_drive_of_complete {run last : Run σ τ} {messages : List (Except Error Frame)}
    {call : Option Invocation} (h : complete around timeout run call messages = (last, .ok ())) :
    ∃ driven, drive around timeout run call messages = (driven, .ok ()) ∧
      last = (commit driven.finish.1).1 := by
  rcases hdrive : drive around timeout run call messages with ⟨driven, result⟩
  cases result with
  | error e => simp [complete, hdrive] at h
  | ok _ =>
      refine ⟨driven, rfl, ?_⟩
      rw [complete_of_drive hdrive] at h
      cases hfinish : driven.finish.2 with
      | error e => simp [hfinish] at h
      | ok _ =>
          simp only [hfinish] at h
          rw [h]

/-- A pipeline that runs to a good end was prepared, and was driven to a good end. -/
theorem exists_complete_of_run (succeeds : (p.run around source sink).result = .ok summary) :
    ∃ timeout last, p.prepared around = .ok timeout ∧
      complete around timeout (p.begun around source sink) (divide p.configured).2.2
        (source.feed around.tree).messages = (last, .ok ()) ∧
      summary = .ofProgress last.progress (source.feed around.tree).bytesRead ∧
      (p.run around source sink).sink = last.sink := by
  cases hprepared : p.prepared around with
  | error e =>
      obtain ⟨lines, hrun⟩ := exists_run_of_unprepared hprepared
      rw [hrun source sink] at succeeds
      cases succeeds
  | ok timeout =>
      obtain ⟨hresult, hsink⟩ := run_of_prepared hprepared source sink
      rw [hresult] at succeeds
      rw [hsink]
      rcases hcomplete : complete around timeout (p.begun around source sink)
        (divide p.configured).2.2
        (source.feed around.tree).messages with ⟨last, result⟩
      obtain ⟨before, after, call, hdivide⟩ :
          ∃ before after call, divide p.configured = (before, after, call) := ⟨_, _, _, rfl⟩
      have hdriven := hcomplete
      rw [begun, hdivide, cancelledEarly] at hdriven
      rw [configured] at hdivide
      simp only [runConfigured, hdivide, hdriven] at succeeds ⊢
      cases result with
      | error e => cases succeeds
      | ok _ => exact ⟨timeout, last, rfl, hcomplete, (Except.ok.inj succeeds).symm, rfl⟩

/-- A run through a tool that ended well, by a schedule after which the pump is `q` and the writer
that fed the tool failed by `fault` or not: what was accomplished, and that the summary counts the
whole input. -/
structure Fulfils (p : Pipeline σ) (around : Surroundings) (timeout : Nat)
    (source : Source) (sink : τ)
    (call : Invocation) (session : Session) (q : Pump σ τ) (fault : Option IoError)
    (summary : Summary)
    (left : τ) : Prop where
  started : (around.tools.launch around.tree timeout call).result = .ok session
  accomplished : ∃ events outs images,
    Pump.Closes session
      ((p.begun around source sink).log (around.tools.launch around.tree timeout call).lines)
      (source.feed around.tree).messages events q true ∧
    Pump.Accomplished session
      ((p.begun around source sink).log (around.tools.launch around.tree timeout call).lines)
      (source.feed around.tree).messages events q fault outs images
  summary_eq : summary = .ofProgress q.run.progress (source.wholeSize around.tree)
  committed : left = (Sink.commit q.run.sink).state

/-- The end of the pump, followed by a successful finish and commit. -/
theorem fulfils_of_closes {session : Session} {events : List PumpEvent} {q : Pump σ τ}
    {fault : Option IoError} {complete : Bool} {driven : Run σ τ} {lines : List LogLine}
    (started : (around.tools.launch around.tree timeout call).result = .ok session)
    (closes : Pump.Closes session
      ((p.begun around source sink).log (around.tools.launch around.tree timeout call).lines)
      (source.feed around.tree).messages events q complete)
    (clean : session.Judges (q.evidence session fault complete) none)
    (logged : driven = q.run.log lines) :
    p.Fulfils around timeout source sink call session q fault
      (.ofProgress (commit driven.finish.1).1.progress (source.feed around.tree).bytesRead)
      (commit driven.finish.1).1.sink := by
  obtain ⟨rfl, outs, images, accomplished⟩ := closes.exists_accomplished rfl clean
  refine ⟨started, ⟨events, outs, images, closes, accomplished⟩, ?_, ?_⟩
  · have hprogress : (commit driven.finish.1).1.progress = q.run.progress := by
      rw [logged]
      exact Run.finish_progress _
    rw [hprogress, source.bytesRead_of_frames accomplished.taken]
  · have hsink : driven.finish.1.sink = q.run.sink := by
      rw [driven.finish_sink, logged]
      rfl
    rw [← hsink]
    rfl

/-- Every schedule by which a run through a tool ends well. -/
theorem Runs.exists_fulfils {disturbed : Prop} {completed : List Frame} {cause? : Option Error}
    (calls : (divide p.configured).2.2 = some call)
    (h : p.Runs disturbed around timeout source sink completed cause? (.ok summary) left) :
    ∃ session q fault, p.Fulfils around timeout source sink call session q fault summary left := by
  cases h with
  | succeeded completes =>
      rw [calls] at completes
      generalize hresult : (Except.ok () : Except Error Unit) = result at completes
      cases completes with
      | broken => cases hresult
      | unfinished drives refused =>
          rw [Run.finish_eq, refused] at hresult
          cases hresult
      | uncommitted drives finished refused =>
          simp only [commit, Run.finish_sink, refused] at hresult
          cases hresult
      | committed drives finished taken =>
          cases drives with
          | through started drives =>
              obtain ⟨events, q, fault, complete, lines, closes, clean, logged⟩ :=
                drives.exists_closes
              exact ⟨_, q, fault, fulfils_of_closes started closes clean logged⟩

/-- The run that is performed. -/
theorem exists_fulfils_run (calls : (divide p.configured).2.2 = some call)
    (succeeds : (p.run around source sink).result = .ok summary) :
    ∃ timeout session q, p.prepared around = .ok timeout ∧
      p.Fulfils around timeout source sink call session q (session.writeFault? q.sentSize) summary
        (p.run around source sink).sink := by
  obtain ⟨timeout, last, prepared, hcomplete, rfl, hsink⟩ := exists_complete_of_run succeeds
  obtain ⟨driven, hdrive, rfl⟩ := exists_drive_of_complete hcomplete
  rw [hsink]
  rw [calls] at hdrive
  simp only [drive] at hdrive
  cases started : (around.tools.launch around.tree timeout call).result with
  | error e => simp [started] at hdrive
  | ok session =>
      simp only [started] at hdrive
      obtain ⟨events, q, complete, lines, closes, clean, logged⟩ :=
        Pump.exists_closes_of_drive rfl hdrive
      exact ⟨timeout, session, q, prepared, fulfils_of_closes started closes clean logged⟩

/-- **The first of all that went wrong decides, and a good end rules all of it out.** Whatever is
known when a tool has closed its output, what is reported is that it does not exit in time, else
that it exits with a failure or by a signal, else why its input could not be written, else that it
wrote nothing, else that it closed its input too early; a run ends well if none of these holds. The
machine reports that after its pump is done, and so does every other schedule. Then every frame of
the source was taken, all that the plugins made of the frames was sent and no write failed, all
output was heard and there was some, the tool exited with zero, and the summary counts the whole
input. -/
theorem first_failure_decides (p : Pipeline σ) (around : Surroundings) (source : Source) (sink : τ)
    (call : Invocation) (calls : (divide p.configured).2.2 = some call) :
    (∀ (s : Session) (e : Session.Evidence) (failure? : Option ToolFailure),
      s.cause? e.ending e.fault e.received e.complete = failure?.map s.failure ↔
        s.Judges e failure?) ∧
    ToolFailure.inputCutShort.message = (ToolFailure.io (.other "工具在输入结束前关闭了管道")).message ∧
    (∀ (s : Session) (run : Run σ τ) (messages : List (Except Error Frame)) (q : Pump σ τ)
      (ending : Ending) (complete : Bool), Pump.Returns s run messages q ending complete →
      ∀ failure?, (Pump.drive s run messages).2 = s.report q.run.progress.lastDone failure? ↔
        s.Judges ⟨ending, s.writeFault? q.sentSize, q.received, complete⟩ failure?) ∧
    (∀ (s : Session) (run : Run σ τ) (messages : List (Except Error Frame))
      (events : List PumpEvent) (q : Pump σ τ) (fault : Option IoError) (complete : Bool),
      run.progress = {} →
      Pump.Closes s run messages events q complete →
      s.Judges (q.evidence s fault complete) none →
      ∃ outs images, Pump.Accomplished s run messages events q fault outs images) ∧
    (∀ (disturbed : Prop) (timeout : Nat) (completed : List Frame) (cause? : Option Error)
      (summary : Summary) (left : τ),
      p.Runs disturbed around timeout source sink completed cause? (.ok summary) left →
      ∃ session q fault, p.Fulfils around timeout source sink call session q fault summary left) ∧
    ∀ summary, (p.run around source sink).result = .ok summary →
      ∃ timeout session q, p.prepared around = .ok timeout ∧
        p.Fulfils around timeout source sink call session q (session.writeFault? q.sentSize) summary
          (p.run around source sink).sink := by
  refine ⟨fun s e failure? => Session.cause?_eq_iff, rfl, ?_, ?_, ?_, ?_⟩
  · intro s run messages q ending complete returns failure?
    exact returns.drive_iff failure?
  · intro s run messages events q fault complete fresh closes clean
    exact (closes.exists_accomplished fresh clean).2
  · intro disturbed timeout completed cause? summary left runs
    exact runs.exists_fulfils calls
  · intro summary succeeds
    exact exists_fulfils_run calls succeeds

/-- Frames for an encoder, one of them empty. -/
def threeFrames : List Frame :=
  [⟨1, [1, 2]⟩, ⟨4, []⟩, ⟨6, [3]⟩]

/-- The encoder before the tool, and nothing behind it. -/
def encoding : Run Vorbis.Encoder MemorySink where
  before := [{}]
  sink := {}

theorem drive_mirror : (Pump.drive mirror encoding (threeFrames.map .ok)).2 = .ok () := by
  obtain ⟨completed, cause?, drives⟩ :=
    Pump.exists_drives_drive encoding rfl mirror (threeFrames.map .ok)
  have awaits : encoding.Awaits fun _ => True := ⟨rfl, fun _ _ => trivial, fun _ _ => trivial, rfl⟩
  exact (drives.answer_eq passThrough_vorbis awaits exits_mirror rfl (by decide)).2.2

theorem run_mirrored : ∃ summary,
    (sampled.run mirrored (.memory (threeFrames.map .ok) 0) ({} : MemorySink)).result =
      .ok summary := by
  have prepared : sampled.prepared mirrored = .ok 30000 := rfl
  obtain ⟨completed, cause?, runs⟩ :=
    exists_runs_run prepared (.memory (threeFrames.map .ok) 0) ({} : MemorySink)
  have feeds : (Source.feed mirrored.tree (.memory (threeFrames.map .ok) 0)).messages =
      threeFrames.map .ok := rfl
  have increasing : threeFrames.Pairwise fun a b => a.sequence < b.sequence := by decide
  have ends :=
    runs.endsAs passThrough_vorbis (fun _ _ => trivial) rfl rfl exits_mirror rfl rfl feeds
    increasing
  exact ((ends.succeeds_iff [3, 2, 1]).2 rfl).1

/-- A tool that died early is reported by its status, although it also broke its input and wrote
nothing; the tool that turns its input around was sent both pieces that are not empty, and the
summary counts all three bytes and frames. -/
theorem first_failure_decides_mirrored :
    mirror.cause? (.exited 1) (some .brokenPipe) 0 false =
      some (mirror.failure (.exitStatus (some 1))) ∧
    (∃ q ending complete, Pump.Returns mirror encoding (threeFrames.map .ok) q ending complete ∧
      mirror.Judges ⟨ending, mirror.writeFault? q.sentSize, q.received, complete⟩ none) ∧
    ∃ summary, ∃ q : Pump Vorbis.Encoder MemorySink,
      (sampled.run mirrored (.memory (threeFrames.map .ok) 0) ({} : MemorySink)).result =
        .ok summary ∧
      q.sent.reverse = [[1, 2], [3]] ∧ summary.framesIn = 3 ∧ summary.bytesIn = 3 := by
  obtain ⟨decides, -, returned, -, -, performed⟩ := first_failure_decides sampled mirrored
    (.memory (threeFrames.map .ok) 0) ({} : MemorySink) ⟨"oggenc", Vorbis.Samples.arguments {}⟩ rfl
  refine ⟨?_, ?_, ?_⟩
  · refine (decides mirror ⟨.exited 1, some .brokenPipe, 0, false⟩ (some (.exitStatus (some 1)))).2
      ?_
    refine ⟨.status rfl (by decide), ?_⟩
    intro other hother
    cases hother <;> simp_all [ToolFailure.rank]
  · obtain ⟨q, ending, complete, returns⟩ := Pump.exists_returns_of_drive rfl drive_mirror
    exact ⟨q, ending, complete, returns,
      (returned mirror encoding _ q ending complete returns none).1 drive_mirror⟩
  · obtain ⟨summary, succeeds⟩ := run_mirrored
    obtain ⟨timeout, session, q, -, -, ⟨events, outs, images, -, accomplished⟩, hsummary, -⟩ :=
      performed summary succeeds
    have htaken : threeFrames = PumpEvent.accepted events :=
      (List.map_inj_right fun _ _ => Except.ok.inj).1 accomplished.taken
    have houts : outs = threeFrames := by
      rw [htaken]
      exact (passThrough_vorbis.of_passesAll accomplished.passes fun _ _ => trivial).1
    refine ⟨summary, q, succeeds, ?_, ?_, ?_⟩
    · rw [accomplished.sent, houts]
      rfl
    · rw [hsummary]
      exact accomplished.counted.trans (by rw [← htaken]; rfl)
    · rw [hsummary]
      rfl

end Pipeline

end Transcode
