import Transcode.Codec.Vorbis
import Transcode.Proofs.PossibleRuns
/-!
# Streaming through a tool

A tool can be given its input in one piece (`ToolLocator.invoke`), or frame by frame while its
output is already being read (`Pump.drive`). For a tool that reads all of its input and answers with
a function of it (`Session.Exits`), between plugins that hand frames on as they are
(`Plugin.PassThrough`), the two agree: both give `Session.answer` of the concatenated bytes. Neither
the division into frames nor the pieces in which the output comes, nor the order in which both
happen, can be seen in the result.
-/

set_option autoImplicit false

namespace Transcode

/-! ## Plugins that hand frames on -/

namespace Plugin

variable {σ : Type} [Plugin σ]

/-- Plugins in the states of `keeps` hand every frame on as it is, and stay in these states. They do
not ask for cancellation, and they take the end of the frames. -/
structure PassThrough (keeps : σ → Prop) : Prop where
  result_eq : ∀ frame s, keeps s → (process frame s).result = .ok frame
  state_keeps : ∀ frame s, keeps s → keeps (process frame s).state
  calm : ∀ frame s, keeps s → (process frame s).cancels = false
  finishes : ∀ s, keeps s → (finish s).result = .ok ()

namespace PassThrough

variable {keeps : σ → Prop} {plugins : List σ}

/-- Passage of one frame through plugins that keep it. -/
theorem passes (h : PassThrough keeps) (all : ∀ s ∈ plugins, keeps s) (frame : Frame) :
    ∃ last, Passes frame plugins frame last false ∧ ∀ s ∈ last, keeps s := by
  induction plugins with
  | nil => exact ⟨[], .done frame, nofun⟩
  | cons s rest ih =>
      have first := all s List.mem_cons_self
      obtain ⟨last, passes, keep⟩ := ih fun s hs => all s (List.mem_cons_of_mem _ hs)
      have passes' := Passes.next (h.result_eq frame s first) passes
      rw [h.calm frame s first] at passes'
      refine ⟨_, passes', ?_⟩
      intro s' hs'
      rcases List.mem_cons.1 hs' with rfl | hrest
      · exact h.state_keeps frame s first
      · exact keep s' hrest

/-- Passage of frames through plugins that keep them. -/
theorem of_passesAll (h : PassThrough keeps) {frames images : List Frame} {last : List σ}
    (passesAll : PassesAll plugins frames images last) (all : ∀ s ∈ plugins, keeps s) :
    images = frames ∧ ∀ s ∈ last, keeps s := by
  induction passesAll with
  | nil => exact ⟨rfl, all⟩
  | @cons plugins plugins' last frame image frames images asked first _ ih =>
      obtain ⟨middle, passes, keep⟩ := h.passes all frame
      obtain ⟨rfl, rfl, -⟩ := first.unique passes
      obtain ⟨rfl, keep'⟩ := ih keep
      exact ⟨rfl, keep'⟩

theorem finishAll (h : PassThrough keeps) (all : ∀ s ∈ plugins, keeps s) :
    (Plugin.finishAll plugins).result = .ok () := by
  induction plugins with
  | nil => rfl
  | cons s rest ih =>
      simp only [Plugin.finishAll, h.finishes s (all s List.mem_cons_self)]
      exact ih fun s hs => all s (List.mem_cons_of_mem _ hs)

end PassThrough

end Plugin

/-! ## Tools that answer -/

namespace Session

/-- A tool that reads all of its input and then exits, or is ended by a signal. -/
structure Exits (s : Session) : Prop where
  reads : s.readsInput = true
  exits : ∀ input, (s.behaviour input).2 = .signalled ∨ ∃ code, (s.behaviour input).2 = .exited code

/-- The answer of a tool to an input: the exit status takes precedence over an empty output. -/
def answer (s : Session) (input : Bytes) : Except ToolFailure Bytes :=
  match s.behaviour input with
  | (output, .exited code) =>
      if code ≠ 0 then .error (.exitStatus (some code))
      else if output = [] then .error .noOutput
      else .ok output
  | (_, .signalled) => .error (.exitStatus none)
  | (_, .silent) | (_, .lingering) => .error (.timeout s.idleTimeout)

variable {s : Session}

/-- The exit of a tool that was given all its input. -/
theorem Exits.verdict_eq (h : s.Exits) (input : Bytes) :
    s.verdict (s.behaviour input).2 none (s.behaviour input).1.length =
      (s.answer input).map fun _ => () := by
  rcases hbehaviour : s.behaviour input with ⟨output, ending⟩
  have exits := h.exits input
  simp only [answer, hbehaviour] at exits ⊢
  rcases exits with rfl | ⟨code, rfl⟩
  · rfl
  · simp only [verdict, List.length_eq_zero_iff]
    by_cases hcode : code ≠ 0
    · rw [if_pos hcode, if_pos hcode]
      rfl
    · rw [if_neg hcode, if_neg hcode]
      by_cases hempty : output = []
      · rw [if_pos hempty, if_pos hempty]
        rfl
      · rw [if_neg hempty, if_neg hempty]
        rfl

/-- A good answer is all that was written. -/
theorem output_of_answer {input output : Bytes} (h : s.answer input = .ok output) :
    output = (s.behaviour input).1 := by
  rcases hbehaviour : s.behaviour input with ⟨written, ending⟩
  simp only [answer, hbehaviour] at h
  split at h
  · next heq =>
      obtain ⟨rfl, rfl⟩ := Prod.mk.inj heq
      split at h
      · cases h
      · split at h
        · cases h
        · exact (Except.ok.inj h).symm
  · cases h
  · cases h
  · cases h

/-- One exchange gives the answer. -/
theorem Exits.collect_eq (h : s.Exits) (input : Bytes) :
    s.collect input = (s.answer input).mapError s.failure := by
  have hread : s.inputRead input = input := by rw [inputRead, if_pos h.reads]
  have hwrites : s.writeFault? input.length = none := by
    simp [writeFault?, takes, h.reads]
  have hheard : (s.exchange input).failure? = none := by
    simp only [exchange, hread]
    rcases h.exits input with hending | ⟨code, hending⟩ <;> rw [hending]
  have hfinish : (s.finish (s.exchange input).ending (s.exchange input).sent
      (s.exchange input).output.length).result =
        ((s.answer input).map fun _ => ()).mapError s.failure := by
    rw [← h.verdict_eq input]
    simp only [finish, exchange, hread, hwrites]
  simp only [collect, hheard, hfinish]
  have houtput : (s.exchange input).output = (s.behaviour input).1 := by
    simp only [exchange, hread]
  cases hanswer : s.answer input with
  | error failure => rfl
  | ok output =>
      rw [houtput, ← output_of_answer hanswer]
      rfl

/-- The answer decides about a run that sent all input and heard all output. -/
theorem Exits.cause?_eq (h : s.Exits) (input : Bytes) :
    s.cause? (s.behaviour input).2 none (s.behaviour input).1.length true =
      match s.answer input with
      | .ok _ => none
      | .error failure => some (s.failure failure) := by
  rw [cause?, h.verdict_eq input]
  cases s.answer input <;> rfl

end Session

/-- A sink in memory appends the frames it takes. -/
theorem MemorySink.contents_of_takes {sink last : MemorySink} {frames : List Frame}
    (h : Sink.Takes sink frames last) :
    last.contents = sink.contents ++ frames.flatMap Frame.data := by
  induction h with
  | nil => rw [List.flatMap_nil, List.append_nil]
  | @cons sink last frame frames taken _ ih =>
      have written : (Sink.write frame sink).state.contents = sink.contents ++ frame.data := by
        simp [contents, MemorySink.frames, Sink.write]
      rw [ih, written, List.flatMap_cons, List.append_assoc]

/-! ## The pump between them -/

namespace PumpEvent

/-- The frames of a schedule are those among its messages. -/
theorem accepted_eq_of_brought {events : List PumpEvent} {frames : List Frame}
    (h : brought events = frames.map .ok) : accepted events = frames := by
  induction events generalizing frames with
  | nil =>
      cases frames with
      | nil => rfl
      | cons => cases h
  | cons event rest ih =>
      cases event with
      | cancel | permit | refused | endOfInput | output _ | outputFailed _ | outputClosed =>
          exact ih h
      | message m =>
          cases frames with
          | nil => cases h
          | cons frame frames =>
              obtain ⟨rfl, hrest⟩ := List.cons.inj h
              exact congrArg (frame :: ·) (ih hrest)

/-- A tool that never refuses is heard to the end. -/
theorem heard_eq_outputs {events : List PumpEvent} (h : .refused ∉ events) :
    heard events = outputs events := by
  induction events with
  | nil => rfl
  | cons event rest ih =>
      have hrest := ih fun hmem => h (List.mem_cons_of_mem _ hmem)
      cases event with
      | refused => exact absurd List.mem_cons_self h
      | output data => exact congrArg (data :: ·) hrest
      | cancel | permit | message _ | endOfInput | outputFailed _ | outputClosed => exact hrest

end PumpEvent

theorem Frame.flatMap_data_number (start : Nat) (payloads : List Bytes) :
    (number start payloads).flatMap data = payloads.flatten := by
  induction payloads generalizing start with
  | nil => rfl
  | cons payload rest ih => rw [number, List.flatMap_cons, List.flatten_cons, ih]

namespace Pump

open PumpEvent (accepted brought heard outputs)

variable {σ τ : Type} [Plugin σ] [Sink τ] {s : Session} {events : List PumpEvent} {run : Run σ τ}
  {tool : String} {p p' : Pump σ τ} {event : PumpEvent}

/-- Cancellation is requested by a plugin or by the sink only. -/
theorem cancelled_of_step (goes : p.step event = (p', .going)) :
    p'.run.cancelled = p.run.cancelled ∨
    (∃ frame image, (Plugin.processAll frame p.run.before).result = .ok image ∧
      p'.run.cancelled = (p.run.cancelled || (Plugin.processAll frame p.run.before).cancels)) ∨
    (∃ frame image, (Plugin.processAll frame p.run.after).result = .ok image ∧
      p'.run.cancelled = (p.run.cancelled || (Plugin.processAll frame p.run.after).cancels ||
        (Sink.write image p.run.sink).cancels)) := by
  cases event with
  | cancel | outputFailed _ | outputClosed => cases goes
  | refused | endOfInput =>
      cases goes
      exact .inl rfl
  | permit =>
      cases goes
      refine .inl ?_
      simp only [release, send]
      split <;> rfl
  | message m =>
      rcases htake : p.take m with ⟨taken, status⟩
      simp only [step, htake, Prod.mk.injEq] at goes
      obtain ⟨rfl, rfl⟩ := goes
      rcases p.run.progress.accept_eq m with ⟨e, rfl, haccept⟩ |
        ⟨frame, previous, rfl, _, _, haccept⟩ |
        ⟨frame, rfl, above, haccept⟩
      · simp [take, haccept] at htake
      · simp [take, haccept] at htake
      · cases hpass : (Plugin.processAll frame p.run.before).result with
        | error e => simp [take, haccept, Run.applyBefore, hpass] at htake
        | ok image =>
            refine .inr (.inl ⟨frame, image, hpass, ?_⟩)
            simp only [take, haccept, Run.applyBefore, hpass, mapError_ok] at htake
            split at htake <;> cases htake <;> rfl
  | output data =>
      rw [step] at goes
      split at goes
      · cases goes
        exact .inl rfl
      · cases hpass : (Plugin.processAll ⟨p.outputSequence + 1, data⟩ p.run.after).result with
        | error e => simp [emit, Run.applyAfter, hpass] at goes
        | ok image =>
            cases hwrite : (Sink.write image p.run.sink).result with
            | error e => simp [emit, Run.applyAfter, hpass, Run.write, hwrite] at goes
            | ok _ =>
                refine .inr (.inr ⟨_, image, hpass, ?_⟩)
                simp only [emit, Run.applyAfter, hpass, mapError_ok, Run.write, hwrite,
                  Prod.mk.injEq] at goes
                rw [← goes.1]

/-- All output is counted, thrown away or not. -/
theorem received_of_step (goes : p.step event = (p', .going)) :
    p'.received = p.received + (outputs [event]).flatten.length := by
  cases event with
  | cancel | outputFailed _ | outputClosed => cases goes
  | refused | endOfInput =>
      cases goes
      rfl
  | permit =>
      cases goes
      simp only [release, send]
      split <;> rfl
  | message m =>
      rcases htake : p.take m with ⟨taken, status⟩
      simp only [step, htake, Prod.mk.injEq] at goes
      obtain ⟨rfl, rfl⟩ := goes
      simp only [take] at htake
      split at htake
      · cases htake
      · split at htake
        · cases htake
        · split at htake <;> cases htake <;> rfl
  | output data =>
      have hcount : (outputs [.output data]).flatten.length = data.length := by
        simp [outputs, PumpEvent.output?]
      rw [hcount]
      simp only [step] at goes
      split at goes
      · cases goes
        rfl
      · simp only [emit] at goes
        split at goes
        · cases goes
        · split at goes <;> cases goes
          rfl

/-- At the end of the source all input was sent. -/
theorem Reaches.complete_of_ended (fresh : run.progress = {}) (h : Reaches { run, tool } events p)
    (ended : .endOfInput ∈ events) : p.complete = true := by
  obtain ⟨outs, images, fed, drawn⟩ := h.exists_fed_drawn fresh
  have hdone : p.inputDone = true := fed.done_iff.2 ended
  have hpending : p.pending = none := fed.nothing_waits hdone
  rw [complete, hdone, hpending]
  rfl

theorem Reaches.received_eq (h : Reaches { run, tool } events p) :
    p.received = (outputs events).flatten.length := by
  induction h with
  | start => rfl
  | step _ _ goes ih =>
      rw [received_of_step goes, ih, PumpEvent.outputs_append, List.flatten_append,
        List.length_append]
  | logged _ _ ih => exact ih

end Pump

/-- A run that has not begun, between plugins that hand frames on. -/
structure Run.Awaits {σ τ : Type} (keeps : σ → Prop) (run : Run σ τ) : Prop where
  fresh : run.progress = {}
  before : ∀ s ∈ run.before, keeps s
  after : ∀ s ∈ run.after, keeps s
  calm : run.cancelled = false

namespace Pump

open PumpEvent (accepted brought heard outputs)

variable {σ : Type} [Plugin σ] {keeps : σ → Prop} {s : Session} {run : Run σ MemorySink}
  {tool : String}
  {p : Pump σ MemorySink} {events : List PumpEvent} {event : PumpEvent} {frames : List Frame}

/-- The plugins hand frames on in every state that a schedule leads to. -/
theorem Reaches.passThrough (through : Plugin.PassThrough keeps) (awaits : run.Awaits keeps)
    (h : Reaches { run, tool } events p) :
    (∀ s ∈ p.run.before, keeps s) ∧ ∀ s ∈ p.run.after, keeps s := by
  obtain ⟨outs, images, fed, drawn⟩ := h.exists_fed_drawn awaits.fresh
  constructor
  · exact (through.of_passesAll fed.passes awaits.before).2
  · exact (through.of_passesAll drawn.passes awaits.after).2

/-- No cancellation is requested. -/
theorem Reaches.calm (through : Plugin.PassThrough keeps) (awaits : run.Awaits keeps)
    (h : Reaches { run, tool } events p) : p.run.cancelled = false := by
  induction h with
  | start => exact awaits.calm
  | logged _ _ ih => exact ih
  | @step events p p' event earlier _ goes ih =>
      obtain ⟨keepBefore, keepAfter⟩ := earlier.passThrough through awaits
      rcases cancelled_of_step goes with hsame | ⟨frame, image, hpass, hasked⟩ |
        ⟨frame, image, hpass, hasked⟩
      · exact hsame.trans ih
      · obtain ⟨last, passes, _⟩ := through.passes keepBefore frame
        rw [hasked, ih, passes.processAll_eq.2.2]
        rfl
      · obtain ⟨last, passes, _⟩ := through.passes keepAfter frame
        rw [hasked, ih, passes.processAll_eq.2.2]
        rfl

/-- The frames taken are the first of those that the source has. -/
theorem accepted_prefix (allows : s.Allows (frames.map .ok) events) :
    accepted events <+: frames := by
  obtain ⟨front, hfront, hbrought⟩ := List.prefix_map_iff.1 allows.inOrder
  rw [PumpEvent.accepted_eq_of_brought hbrought]
  exact hfront

/-- Nothing goes wrong before the tool closes its output. -/
theorem Reaches.not_trips (through : Plugin.PassThrough keeps) (awaits : run.Awaits keeps)
    (exits : s.Exits) (increasing : frames.Pairwise fun a b => a.sequence < b.sequence)
    (h : Reaches { run, tool } events p) (allows : s.Allows (frames.map .ok) (events ++ [event]))
    (expects : Expects s p event) (cause : Error) : ¬Trips p event cause := by
  intro trips
  obtain ⟨keepBefore, keepAfter⟩ := h.passThrough through awaits
  cases trips with
  | cancelled => exact Bool.false_ne_true ((h.calm through awaits).symm.trans expects)
  | source =>
      -- the source delivers frames only
      obtain ⟨front, _, hbrought⟩ := List.prefix_map_iff.1 allows.inOrder
      have hmem : Except.error cause ∈ brought (events ++ [.message (.error cause)]) := by
        rw [PumpEvent.brought_append]
        exact List.mem_append_right _ List.mem_cons_self
      rw [hbrought] at hmem
      simp at hmem
  | @order frame previous last notAbove =>
      -- the frames come in the order of their numbers
      obtain ⟨outs, images, fed, drawn⟩ := h.exists_fed_drawn awaits.fresh
      have hprefix := accepted_prefix allows
      rw [PumpEvent.accepted_concat] at hprefix
      have ordered := (List.pairwise_append.1 (increasing.sublist hprefix.sublist)).2.2
      have hlast : lastNumber (accepted events) = some previous := fed.lastIn_eq.symm.trans last
      obtain ⟨frame', hframe', rfl⟩ := Option.map_eq_some_iff.1 hlast
      have above := ordered frame' (List.mem_of_getLast? hframe') frame List.mem_cons_self
      exact absurd notAbove (Nat.not_le.2 above)
  | @before frame _ _ refuses =>
      obtain ⟨last, passes, _⟩ := through.passes keepBefore frame
      exact passes.not_refuses refuses
  | @after data _ _ refuses =>
      obtain ⟨last, passes, _⟩ := through.passes keepAfter ⟨p.outputSequence + 1, data⟩
      exact passes.not_refuses refuses
  | sink _ _ refused => cases refused
  | output =>
      rcases exits.exits (s.inputRead p.input) with hending | ⟨code, hending⟩
      · exact absurd (hending.symm.trans expects) (by simp)
      · exact absurd (hending.symm.trans expects) (by simp)

/-- At the end of the source the tool has read the data of all frames. -/
theorem Reaches.input_eq (through : Plugin.PassThrough keeps) (awaits : run.Awaits keeps)
    (h : Reaches { run, tool } events p) (allows : s.Allows (frames.map .ok) events)
    (whole : .endOfInput ∈ events) :
    p.input = frames.flatMap Frame.data ∧ p.pending = none ∧
      p.run.progress.lastDone = lastNumber frames := by
  obtain ⟨outs, images, fed, drawn⟩ := h.exists_fed_drawn awaits.fresh
  have haccepted := PumpEvent.accepted_eq_of_brought (allows.ended whole)
  have hpending : p.pending = none := fed.nothing_waits (fed.done_iff.2 whole)
  obtain ⟨rfl, _⟩ := through.of_passesAll fed.passes awaits.before
  refine ⟨?_, hpending, ?_⟩
  · have hpieces : p.sent.reverse ++ (p.pending.map Prod.snd).toList = _ := fed.pieces
    have hbytes := congrArg List.flatten hpieces
    rw [hpending, haccepted, List.flatten_append, List.flatten_filter_not_isEmpty] at hbytes
    rw [input, List.flatMap_def, ← hbytes]
    exact (List.append_nil _).symm
  · have hdone : p.run.progress.lastDone = _ := fed.lastDone_eq
    rw [hdone, haccepted]
    simp [inputSide, hpending]

/-- The sink holds the bytes received, behind those it had. -/
theorem Reaches.contents_eq (through : Plugin.PassThrough keeps) (awaits : run.Awaits keeps)
    (h : Reaches { run, tool } events p) (live : .refused ∉ events) :
    p.run.sink.contents = run.sink.contents ++ (outputs events).flatten := by
  obtain ⟨outs, images, fed, drawn⟩ := h.exists_fed_drawn awaits.fresh
  obtain ⟨rfl, _⟩ := through.of_passesAll drawn.passes awaits.after
  have htaken : p.run.sink.contents = _ := MemorySink.contents_of_takes drawn.takes
  rw [htaken, Frame.flatMap_data_number, PumpEvent.heard_eq_outputs live]

/-- A run through a tool gives the answer of the tool to all bytes together. -/
theorem Drives.answer_eq (through : Plugin.PassThrough keeps) (awaits : run.Awaits keeps)
    (exits : s.Exits) (holds : s.holdsOutput = true)
    (increasing : frames.Pairwise fun a b => a.sequence < b.sequence)
    {completed : List Frame} {cause? : Option Error} {last : Run σ MemorySink}
    {result : Except Error Unit}
    (h : Drives False s run (frames.map .ok) completed cause? last result) :
    last.sink.contents = run.sink.contents ++ (s.behaviour (frames.flatMap Frame.data)).1 ∧
    (∀ s ∈ last.before ++ last.after, keeps s) ∧
    result = ((s.answer (frames.flatMap Frame.data)).map fun _ => ()).mapError
      fun failure => .externalTool s.tool failure (lastNumber frames) := by
  cases h with
  | broken reaches allows enabled expects completes trips fails =>
      rcases expects with disturbed | expects
      · exact disturbed.elim
      · exact absurd trips (reaches.not_trips through awaits exits increasing allows expects _)
  | @exited events p _ complete fault reaches allows answered unbroken held closed completes
      lines =>
      have ended := held exits.reads holds
      obtain rfl := unbroken exits.reads
      obtain ⟨hinput, hpending, hdone⟩ := reaches.input_eq through awaits allows ended
      have live : .refused ∉ events := by
        intro hrefused
        exact Bool.false_ne_true ((allows.refused hrefused).symm.trans exits.reads)
      have hread : s.inputRead p.input = frames.flatMap Frame.data := by
        rw [Session.inputRead, if_pos exits.reads, hinput]
      rw [hread] at answered ⊢
      obtain ⟨keepBefore, keepAfter⟩ := reaches.passThrough through awaits
      refine ⟨?_, ?_, ?_⟩
      · rw [← answered]
        exact reaches.contents_eq through awaits live
      · intro s hs
        rcases List.mem_append.1 hs with hbefore | hafter
        · exact keepBefore s hbefore
        · exact keepAfter s hafter
      · have hreceived : p.received = (s.behaviour (frames.flatMap Frame.data)).1.length := by
          rw [reaches.received_eq, answered]
        have hcomplete : complete = true := by
          rw [(step_done_iff.1 closed).2, reaches.live_of_not_refused awaits.fresh live]
          exact reaches.complete_of_ended awaits.fresh ended
        rw [hreceived, hcomplete, exits.cause?_eq]
        cases s.answer (frames.flatMap Frame.data) with
        | ok output => rfl
        | error failure =>
            simp only [Run.resultOf, Run.fail, hdone]
            rfl

end Pump

/-! ## Pipelines -/

/-- A tool that was started is the one that was called. -/
theorem ToolLocator.tool_of_launch {l : ToolLocator} {t : FileTree} {timeout : Nat}
    {call : Invocation}
    {session : Session} (h : (l.launch t timeout call).result = .ok session) :
    session.tool = call.tool := by
  simp only [launch] at h
  split at h
  · cases h
  · split at h
    · cases h
    · cases h
      rfl

/-- One exchange with a tool that was started. -/
theorem ToolLocator.invoke_eq {l : ToolLocator} {t : FileTree} {timeout : Nat} {call : Invocation}
    {session : Session} (started : (l.launch t timeout call).result = .ok session)
    (exits : session.Exits) (input : Bytes) :
    l.invoke t timeout call input = (session.answer input).mapError session.failure := by
  rw [← exits.collect_eq, invoke, started]
  rfl

namespace Pipeline

open Pump (lastNumber)

variable {σ : Type} [Plugin σ] {keeps : σ → Prop} {around : Surroundings} {timeout : Nat}
  {call : Invocation} {session : Session} {frames : List Frame}

theorem awaits_begun {p : Pipeline σ} (all : ∀ s ∈ p.configured, keeps s)
    (calm : p.cancelledEarly around = false) (source : Source) (sink : MemorySink) :
    (p.begun around source sink).Awaits keeps := by
  have hparts := divide_append p.configured
  refine ⟨rfl, ?_, ?_, calm⟩
  · intro s hs
    apply all
    rw [← hparts]
    exact List.mem_append_left _ hs
  · intro s hs
    apply all
    rw [← hparts]
    exact List.mem_append_right _ hs

/-- A run that is driven to its end through a tool gives the tool's answer: the plugins take the end
of the frames, and the sink is committed. -/
theorem Completes.answer_eq {run last : Run σ MemorySink} {completed : List Frame}
    {cause? : Option Error} {result : Except Error Unit} (through : Plugin.PassThrough keeps)
    (awaits : run.Awaits keeps)
    (started : (around.tools.launch around.tree timeout call).result = .ok session)
    (exits : session.Exits) (holds : session.holdsOutput = true)
    (increasing : frames.Pairwise fun a b => a.sequence < b.sequence)
    (h : Completes False around timeout run (frames.map .ok) (some call) completed cause?
      last result) :
    last.sink.contents =
        run.sink.contents ++ (session.behaviour (frames.flatMap Frame.data)).1 ∧
      result = ((session.answer (frames.flatMap Frame.data)).map fun _ => ()).mapError
        fun failure => .externalTool session.tool failure (lastNumber frames) := by
  -- the answer to the frames is the same for all ends
  have streamed {completed cause? driven result} (drives : Drives False around timeout run
      (frames.map .ok) (some call) completed cause? driven result) :
      driven.sink.contents =
        run.sink.contents ++ (session.behaviour (frames.flatMap Frame.data)).1 ∧
      (∀ s ∈ driven.before ++ driven.after, keeps s) ∧
      result = ((session.answer (frames.flatMap Frame.data)).map fun _ => ()).mapError
        fun failure => .externalTool session.tool failure (lastNumber frames) := by
    cases drives with
    | unstarted refused => cases started.symm.trans refused
    | through started' drives =>
        obtain rfl := Except.ok.inj (started.symm.trans started')
        have awaits' :
          (run.log (around.tools.launch around.tree timeout call).lines).Awaits keeps :=
          ⟨awaits.fresh, awaits.before, awaits.after, awaits.calm⟩
        exact drives.answer_eq through awaits' exits holds increasing
  cases h with
  | broken drives =>
      obtain ⟨hsink, _, hresult⟩ := streamed drives
      exact ⟨hsink, hresult⟩
  | unfinished drives refused =>
      obtain ⟨_, keep, _⟩ := streamed drives
      cases (through.finishAll keep).symm.trans refused
  | uncommitted drives finished refused => cases refused
  | @committed cause? driven drives finished taken =>
      obtain ⟨hsink, _, hresult⟩ := streamed drives
      have hkept : (commit driven.finish.1).1.sink.contents = driven.finish.1.sink.contents := rfl
      rw [hkept, driven.finish_sink]
      exact ⟨hsink, hresult⟩

/-- A run into memory ended as one exchange with the tool does: with the same output, or with the
same failure of the tool, reported after the last frame. -/
structure EndsAs (tool : String) (last : Option Nat) (invoked : Except Error Bytes)
    (result : Except Error Summary) (sink : MemorySink) : Prop where
  succeeds_iff : ∀ output, (∃ summary, result = .ok summary) ∧ sink.contents = output ↔
    invoked = .ok output
  fails_iff : ∀ failure, result = .error (.externalTool tool failure last) ↔
    invoked = .error (.externalTool tool failure none)

/-- Every undisturbed run ends as one exchange does. -/
theorem Runs.endsAs {p : Pipeline σ} {source : Source} {completed : List Frame}
    {cause? : Option Error} {result : Except Error Summary} {left : MemorySink}
    (through : Plugin.PassThrough keeps) (all : ∀ s ∈ p.configured, keeps s)
    (calls : (divide p.configured).2.2 = some call)
    (started : (around.tools.launch around.tree timeout call).result = .ok session)
    (exits : session.Exits) (holds : session.holdsOutput = true)
    (calm : p.cancelledEarly around = false)
    (feeds : (source.feed around.tree).messages = frames.map .ok)
    (increasing : frames.Pairwise fun a b => a.sequence < b.sequence)
    (h : p.Runs False around timeout source {} completed cause? result left) :
    EndsAs call.tool (lastNumber frames)
      ((session.answer (frames.flatMap Frame.data)).mapError session.failure) result left := by
  have htool := ToolLocator.tool_of_launch started
  have awaits := awaits_begun all calm source ({} : MemorySink)
  cases h with
  | @failed last e completes =>
      rw [calls, feeds] at completes
      obtain ⟨_, hresult⟩ := completes.answer_eq through awaits started exits holds increasing
      cases hanswer : session.answer (frames.flatMap Frame.data) with
      | ok output =>
          rw [hanswer] at hresult
          cases hresult
      | error failure =>
          rw [hanswer] at hresult
          obtain rfl := Except.error.inj hresult
          constructor
          · intro output
            constructor
            · rintro ⟨⟨_, ⟨⟩⟩, _⟩
            · rintro ⟨⟩
          · intro failure'
            simp [Session.failure, htool]
  | @succeeded last completes =>
      rw [calls, feeds] at completes
      obtain ⟨hsink, hresult⟩ := completes.answer_eq through awaits started exits holds increasing
      cases hanswer : session.answer (frames.flatMap Frame.data) with
      | error failure =>
          rw [hanswer] at hresult
          cases hresult
      | ok output =>
          have hcontents : last.sink.contents = output := by
            rw [hsink, Session.output_of_answer hanswer]
            rfl
          constructor
          · intro output'
            rw [hcontents]
            constructor
            · rintro ⟨_, rfl⟩
              rfl
            · rintro ⟨⟩
              exact ⟨⟨_, rfl⟩, rfl⟩
          · intro failure'
            constructor
            · rintro ⟨⟩
            · rintro ⟨⟩

/-- **Streaming through a tool and invoking it once agree.** Let a tool read its input to the end,
keep its output open until then and answer with a function of the input, and let the plugins on both
sides of it pass frames through. For every division of the input into frames with increasing
numbers, and every schedule of the output, the run succeeds with some output in its sink exactly if
one exchange on all the bytes returns that output, and it fails with a failure of the tool exactly
if the exchange does. The answer is the exit status if that is no success, else the missing output,
else the output. -/
theorem streams_as_invoked (p : Pipeline σ) (around : Surroundings) (timeout : Nat)
    (prepared : p.prepared around = .ok timeout) (keeps : σ → Prop)
    (through : Plugin.PassThrough keeps) (all : ∀ s ∈ p.configured, keeps s) (call : Invocation)
    (calls : (divide p.configured).2.2 = some call) (session : Session)
    (started : (around.tools.launch around.tree timeout call).result = .ok session)
    (exits : session.Exits) (holds : session.holdsOutput = true)
    (calm : p.cancelledEarly around = false) (source : Source)
    (frames : List Frame) (feeds : (source.feed around.tree).messages = frames.map .ok)
    (increasing : frames.Pairwise fun a b => a.sequence < b.sequence) :
    let invoked := around.tools.invoke around.tree timeout call (frames.flatMap Frame.data)
    let outcome := p.run around source ({} : MemorySink)
    invoked = (session.answer (frames.flatMap Frame.data)).mapError session.failure ∧
    EndsAs call.tool (lastNumber frames) invoked outcome.result outcome.sink ∧
    ∀ completed cause? result left,
      p.Runs False around timeout source ({} : MemorySink) completed cause? result left →
      EndsAs call.tool (lastNumber frames) invoked result left := by
  intro invoked outcome
  have hinvoked : invoked =
      (session.answer (frames.flatMap Frame.data)).mapError session.failure :=
    ToolLocator.invoke_eq started exits _
  have streams {completed cause? result left}
      (runs : p.Runs False around timeout source ({} : MemorySink) completed cause? result left) :
      EndsAs call.tool (lastNumber frames) invoked result left := by
    rw [hinvoked]
    exact runs.endsAs through all calls started exits holds calm feeds increasing
  refine ⟨hinvoked, ?_, ?_⟩
  · obtain ⟨completed, cause?, runs⟩ := exists_runs_run prepared source ({} : MemorySink)
    exact streams runs
  · intro completed cause? result left runs
    exact streams runs

/-- Samples for an encoder. -/
def sampled : Pipeline Vorbis.Encoder where
  job := { input := "in.pcm", output := "out.ogg", selected := Vorbis.encoderDescriptor }
  importer? := none
  exporter := {}

/-- A place with a tool that turns its input around. -/
def mirrored : Surroundings where
  tree :=
    { nodes := [(["bin"], .directory),
        (["bin", "oggenc"],
          .program (.runs ⟨true, true, fun _ input => (input.reverse, .exited 0)⟩) 0o755)] }
  tools := { search := ["/bin"] }
  elapsed := ""

/-- That tool once it is started. -/
def mirror : Session where
  tool := "oggenc"
  readsInput := true
  behaviour input := (input.reverse, .exited 0)
  idleTimeout := 30000

theorem exits_mirror : mirror.Exits :=
  ⟨rfl, fun _ => .inr ⟨0, rfl⟩⟩

theorem passThrough_vorbis : Plugin.PassThrough fun _ : Vorbis.Encoder => True where
  result_eq _ _ _ := rfl
  state_keeps _ _ _ := trivial
  calm _ _ _ := rfl
  finishes _ _ := rfl

/-- Three frames, one of them empty, come out of the tool as one exchange gives them. -/
theorem streams_as_invoked_mirrored :
    let outcome := sampled.run mirrored
      (.memory [.ok ⟨1, [1, 2]⟩, .ok ⟨4, []⟩, .ok ⟨6, [3]⟩] 0) ({} : MemorySink)
    (∃ summary, outcome.result = .ok summary) ∧ outcome.sink.contents = [3, 2, 1] := by
  intro outcome
  have prepared : sampled.prepared mirrored = .ok 30000 := rfl
  have streams := streams_as_invoked sampled mirrored 30000 prepared (fun _ => True)
    passThrough_vorbis (fun _ _ => trivial) ⟨"oggenc", Vorbis.Samples.arguments {}⟩ rfl mirror rfl
    exits_mirror rfl rfl (.memory [.ok ⟨1, [1, 2]⟩, .ok ⟨4, []⟩, .ok ⟨6, [3]⟩] 0)
    [⟨1, [1, 2]⟩, ⟨4, []⟩, ⟨6, [3]⟩] rfl (by decide)
  apply (streams.2.1.succeeds_iff [3, 2, 1]).2
  rw [streams.1]
  rfl

/-- The invocation of the encoder for samples. -/
def encodingCall : Invocation :=
  ⟨"oggenc", Vorbis.Samples.arguments {}⟩

/-- A place with a tool that writes one byte and closes its output before it reads its input. -/
def hasty : Surroundings where
  tree :=
    { nodes := [(["bin"], .directory),
        (["bin", "oggenc"], .program (.runs ⟨true, false, fun _ _ => ([7], .exited 0)⟩) 0o755)] }
  tools := { search := ["/bin"] }
  elapsed := ""

/-- Two tools that read their input to the end and exit with zero. The first closes its output
early: the exchange returns its output, and a run can fail because the input was cut short. The
second keeps its output open, and the run fails because the frames are out of order. -/
theorem streaming_apart_from_invoking :
    (∃ session, (hasty.tools.launch hasty.tree 30000 encodingCall).result = .ok session ∧
      session.Exits ∧ hasty.tools.invoke hasty.tree 30000 encodingCall [1] = .ok [7] ∧
      ∃ left, sampled.Runs False hasty 30000 (.memory [.ok ⟨1, [1]⟩] 0) ({} : MemorySink) []
        (some (.externalTool "oggenc" .inputCutShort none))
        (.error (.externalTool "oggenc" .inputCutShort none)) left) ∧
    (∃ session, (mirrored.tools.launch mirrored.tree 30000 encodingCall).result = .ok session ∧
      session.Exits ∧ session.holdsOutput = true ∧
      mirrored.tools.invoke mirrored.tree 30000 encodingCall [1, 2] = .ok [2, 1] ∧
      (sampled.run mirrored (.memory [.ok ⟨2, [1]⟩, .ok ⟨1, [2]⟩] 0) ({} : MemorySink)).result =
        .error (.pipeline (.outOfOrder 2 1) (some 2))) := by
  constructor
  · let session : Session := { tool := "oggenc", readsInput := true, holdsOutput := false
                               behaviour := fun _ => ([7], .exited 0), idleTimeout := 30000 }
    have exits : session.Exits := ⟨rfl, fun _ => .inr ⟨0, rfl⟩⟩
    refine ⟨session, rfl, exits, ToolLocator.invoke_eq rfl exits [1], ?_⟩
    -- the output comes and is closed before the frame is taken from the source
    have allows : session.Allows [.ok ⟨1, [1]⟩] [.output [7]] :=
      (Session.Allows.start _ _).concat (.output [7]) rfl (by simp) (by simp) (by simp)
    let run := (sampled.begun hasty (.memory [.ok ⟨1, [1]⟩] 0) ({} : MemorySink)).log
      (hasty.tools.launch hasty.tree 30000 encodingCall).lines
    have reaches : Pump.Reaches { run, tool := "oggenc" } [.output [7]]
        (Pump.step { run, tool := "oggenc" } (.output [7])).1 := .step .start rfl rfl
    have drives : Pump.Drives False session run [.ok ⟨1, [1]⟩] [] _ _ _ :=
      .exited reaches allows rfl (fun _ => rfl) (fun _ held => absurd held Bool.false_ne_true) rfl
        (.mk (.nil _)) []
    exact ⟨_, .failed (.broken (.through rfl drives))⟩
  · exact ⟨mirror, rfl, exits_mirror, rfl, ToolLocator.invoke_eq rfl exits_mirror [1, 2], rfl⟩

end Pipeline

end Transcode
