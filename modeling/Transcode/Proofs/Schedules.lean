import Transcode.Proofs.Conveyance
import Transcode.Proofs.PumpSchedule
/-!
# Endings of a run through a tool

A run through a tool depends on the order in which source, tool and user act. `Pump.Reaches` relates
any order of events to the state of the pump after it, and `Pump.Drives` is the relation of all
endings of the run: an event fails, or the tool closes its output and its exit decides. It also
carries the completed frames and the cause of a failure, which the run itself does not report. The
machine has a schedule of its own, in which all input comes before any output; it is one of these,
and undisturbed (`Pump.exists_drives_drive`).
-/

set_option autoImplicit false

namespace Transcode

/-! ## Messages of a schedule -/

namespace PumpEvent

/-- The message an event brings. -/
def message? : PumpEvent → Option (Except Error Frame)
  | .message m => some m
  | _ => none

/-- The messages a schedule brings, in their order. -/
def brought (events : List PumpEvent) : List (Except Error Frame) :=
  events.filterMap message?

/-- The output an event brings. -/
def output? : PumpEvent → Option Bytes
  | .output data => some data
  | _ => none

/-- The pieces of output a schedule brings, heard or not. -/
def outputs (events : List PumpEvent) : List Bytes :=
  events.filterMap output?

/-- Whether an event sends a piece to the tool. -/
def isPermit : PumpEvent → Bool
  | .permit => true
  | _ => false

/-- The number of pieces a schedule sends to the tool. -/
def permits (events : List PumpEvent) : Nat :=
  events.countP isPermit

theorem brought_append (events more : List PumpEvent) :
    brought (events ++ more) = brought events ++ brought more :=
  List.filterMap_append

theorem outputs_append (events more : List PumpEvent) :
    outputs (events ++ more) = outputs events ++ outputs more :=
  List.filterMap_append

theorem permits_concat (events : List PumpEvent) (event : PumpEvent) :
    permits (events ++ [event]) = permits events + if event.isPermit then 1 else 0 := by
  rw [permits, List.countP_append, List.countP_singleton]
  rfl

end PumpEvent

namespace Session

open PumpEvent (brought)

/-- The events that source and tool allow: the source delivers its messages in their order and ends
behind the last one, a tool that reads its input never refuses it, and receiving fails with a
failure of the tool. -/
structure Allows (s : Session) (messages : List (Except Error Frame)) (events : List PumpEvent) :
    Prop where
  inOrder : brought events <+: messages
  ended : .endOfInput ∈ events → brought events = messages
  refused : .refused ∈ events → s.readsInput = false
  failing : ∀ e, .outputFailed e ∈ events → ∃ failure, e = s.failure failure

end Session

/-- Concatenation of the output chunks gives the output. -/
theorem Session.flatten_outputChunks (output : Bytes) : (outputChunks output).flatten = output := by
  induction output using outputChunks.induct with
  | case1 => rw [outputChunks, if_pos rfl, List.flatten_nil]
  | case2 output h ih =>
      rw [outputChunks, if_neg h, List.flatten_cons, ih, List.take_append_drop]

namespace Pump

open PumpEvent (accepted brought outputs permits)

variable {σ τ : Type} [Plugin σ] [Sink τ]

/-! ## Schedules -/

/-- Where a pump gets by events each of which can happen in its turn. Lines may be logged in
between. -/
inductive Reaches (start : Pump σ τ) : List PumpEvent → Pump σ τ → Prop where
  | start : Reaches start [] start
  | step {events : List PumpEvent} {p p' : Pump σ τ} {event : PumpEvent}
      (earlier : Reaches start events p) (enabled : p.enabled event = true)
      (goes : p.step event = (p', .going)) : Reaches start (events ++ [event]) p'
  | logged {events : List PumpEvent} {p : Pump σ τ} (earlier : Reaches start events p)
      (lines : List LogLine) : Reaches start events { p with run := p.run.log lines }

/-- Every schedule keeps both sides in order. -/
theorem Reaches.exists_fed_drawn {run : Run σ τ} {tool : String} (fresh : run.progress = {})
    {events : List PumpEvent} {p : Pump σ τ} (h : Reaches { run, tool } events p) :
    ∃ outs images, Fed run.before events outs p.inputSide ∧
      Drawn run.after run.sink events images p.outputSide := by
  induction h with
  | start =>
      refine ⟨[], [], ?_, ?_⟩
      · simpa [inputSide, fresh] using Fed.start run.before
      · simpa [outputSide, fresh] using Drawn.start run.after run.sink
  | step _ enabled goes ih =>
      obtain ⟨outs, images, fed, drawn⟩ := ih
      exact exists_fed_drawn_step fed drawn enabled goes
  | logged _ lines ih => exact ih

/-- The frames of which nothing is left to send after `sent` pieces: what the plugins made of a
frame is empty, or it is among the pieces sent. Pieces are sent in the order of their frames. -/
def handedOver : List Frame → List Frame → Nat → List Frame
  | frame :: frames, image :: images, sent =>
      if image.data = [] then frame :: handedOver frames images sent
      else
        match sent with
        | 0 => handedOver frames images 0
        | more + 1 => frame :: handedOver frames images more
  | _, _, _ => []

/-- The frames a schedule has completed: what the plugins before the tool made of them was sent, or
is empty. -/
inductive Completed (plugins : List σ) (events : List PumpEvent) : List Frame → Prop where
  | mk {outs : List Frame} {last : List σ}
      (passes : Plugin.PassesAll plugins (accepted events) outs last) :
      Completed plugins events (handedOver (accepted events) outs (permits events))

/-- The cause of a failing event, before the run reports it. -/
inductive Trips (p : Pump σ τ) : PumpEvent → Error → Prop where
  | cancelled : Trips p .cancel (.cancelled none)
  | source (e : Error) : Trips p (.message (.error e)) e
  | order {frame : Frame} {previous : Nat} (last : p.run.progress.lastIn = some previous)
      (notAbove : frame.sequence ≤ previous) :
      Trips p (.message (.ok frame)) (.pipeline (.outOfOrder previous frame.sequence) none)
  | before {frame : Frame} {e : Error}
      (precedes : ∀ previous, p.run.progress.lastIn = some previous → previous < frame.sequence)
      (refuses : Plugin.Refuses frame p.run.before e) : Trips p (.message (.ok frame)) e
  | after {data : Bytes} {e : Error} (live : p.draining = false)
      (refuses : Plugin.Refuses ⟨p.outputSequence + 1, data⟩ p.run.after e) :
      Trips p (.output data) e
  | sink {data : Bytes} {image : Frame} {plugins : List σ} {asked : Bool} {e : Error}
      (live : p.draining = false)
      (passes : Plugin.Passes ⟨p.outputSequence + 1, data⟩ p.run.after image plugins asked)
      (refused : (Sink.write image p.run.sink).result = .error e) : Trips p (.output data) e
  | output (e : Error) : Trips p (.outputFailed e) e

/-- Whatever trips the pump is reported with the last frame completed. -/
theorem Trips.fails {p : Pump σ τ} {event : PumpEvent} {cause : Error} (h : Trips p event cause) :
    Fails p event (cause.toJobFailure p.run.progress.lastDone) := by
  cases h with
  | cancelled => exact .cancelled
  | source => exact .source _
  | order last notAbove => exact .order last notAbove
  | before precedes refuses => exact .before precedes refuses
  | after live refuses => exact .after live refuses
  | sink live passes refused => exact .sink live passes refused
  | output => exact .output _

theorem Fails.exists_trips {p : Pump σ τ} {event : PumpEvent} {e : Error} (h : Fails p event e) :
    ∃ cause, Trips p event cause := by
  cases h with
  | cancelled => exact ⟨_, .cancelled⟩
  | source => exact ⟨_, .source _⟩
  | order last notAbove => exact ⟨_, .order last notAbove⟩
  | before precedes refuses => exact ⟨_, .before precedes refuses⟩
  | after live refuses => exact ⟨_, .after live refuses⟩
  | sink live passes refused => exact ⟨_, .sink live passes refused⟩
  | output => exact ⟨_, .output _⟩

/-- The events of an undisturbed run: cancellation only where one of its parts requested it, and a
failure to receive only where the tool never closes its output. -/
def Expects (s : Session) (p : Pump σ τ) : PumpEvent → Prop
  | .cancel => p.run.cancelled = true
  | .outputFailed _ => (s.behaviour (s.inputRead p.input)).2 = .silent
  | _ => True

/-! ## Ends -/

/-- The endings of a run through a started tool. An event fails, or the tool closes its output and
has then written its response to the input it read. A tool that reads its input does not make the
writer fail, and one that holds its output has also read its input to the end; any other may close
its output at any time. -/
inductive Drives (disturbed : Prop) (s : Session) (run : Run σ τ)
    (messages : List (Except Error Frame)) :
    List Frame → Option Error → Run σ τ → Except Error Unit → Prop where
  | broken {events : List PumpEvent} {event : PumpEvent} {p p' : Pump σ τ} {completed : List Frame}
      {cause e : Error} (reaches : Reaches { run, tool := s.tool } events p)
      (allows : s.Allows messages (events ++ [event])) (enabled : p.enabled event = true)
      (expects : disturbed ∨ Expects s p event) (completes : Completed run.before events completed)
      (trips : Trips p event cause) (fails : p.step event = (p', .failed e)) :
      Drives disturbed s run messages completed (some cause) p'.run (.error e)
  | exited {events : List PumpEvent} {p : Pump σ τ} {completed : List Frame} {complete : Bool}
      {fault : Option IoError} (reaches : Reaches { run, tool := s.tool } events p)
      (allows : s.Allows messages events)
      (answered : (outputs events).flatten = (s.behaviour (s.inputRead p.input)).1)
      (unbroken : s.readsInput = true → fault = none)
      (held : s.readsInput = true → s.holdsOutput = true → .endOfInput ∈ events)
      (closed : (p.step .outputClosed).2 = .done complete)
      (completes : Completed run.before events completed) (lines : List LogLine) :
      Drives disturbed s run messages completed
        (s.cause? (s.behaviour (s.inputRead p.input)).2 fault p.received complete) (p.run.log lines)
        (p.run.resultOf
          (s.cause? (s.behaviour (s.inputRead p.input)).2 fault p.received complete))

/-! ## The schedule of the machine -/

/-- Failure of an event after an undisturbed schedule. -/
inductive Breaks (s : Session) (start : Pump σ τ) (messages : List (Except Error Frame)) :
    Pump σ τ → Error → Prop where
  | mk {events : List PumpEvent} {event : PumpEvent} {p p' : Pump σ τ} {e : Error}
      (reaches : Reaches start events p) (allows : s.Allows messages (events ++ [event]))
      (enabled : p.enabled event = true) (expects : Expects s p event)
      (fails : p.step event = (p', .failed e)) : Breaks s start messages p' e

end Pump

namespace Session.Allows

open PumpEvent (brought)

variable {s : Session} {messages : List (Except Error Frame)} {events : List PumpEvent}

theorem start (s : Session) (messages : List (Except Error Frame)) : s.Allows messages [] where
  inOrder := List.nil_prefix
  ended := by simp
  refused := by simp
  failing := by simp

/-- An event that neither comes from the source nor refuses anything can come at any time. -/
theorem concat (h : s.Allows messages events) (event : PumpEvent)
    (noMessage : event.message? = none)
    (noEnd : event ≠ .endOfInput) (noRefusal : event ≠ .refused)
    (fromTool : ∀ e, event = .outputFailed e → ∃ failure, e = s.failure failure) :
    s.Allows messages (events ++ [event]) := by
  have same : brought (events ++ [event]) = brought events := by
    simp [brought, noMessage]
  refine ⟨?_, ?_, ?_, ?_⟩
  · rw [same]
    exact h.inOrder
  · intro hend
    rw [same]
    apply h.ended
    simpa [Ne.symm noEnd] using hend
  · intro hrefused
    apply h.refused
    simpa [Ne.symm noRefusal] using hrefused
  · intro e he
    rcases List.mem_append.1 he with earlier | last
    · exact h.failing e earlier
    · exact fromTool e (List.mem_singleton.1 last).symm

/-- The source delivers the next of its messages. -/
theorem message (h : s.Allows messages events) {m : Except Error Frame}
    {rest : List (Except Error Frame)} (next : brought events ++ m :: rest = messages)
    (unfinished : .endOfInput ∉ events) : s.Allows messages (events ++ [.message m]) := by
  have more : brought (events ++ [.message m]) = brought events ++ [m] := by
    rw [PumpEvent.brought_append]
    rfl
  refine ⟨?_, ?_, ?_, ?_⟩
  · rw [more]
    exact ⟨rest, by rw [List.append_assoc]; exact next⟩
  · intro hend
    exact absurd (by simpa using hend) unfinished
  · intro hrefused
    exact h.refused (by simpa using hrefused)
  · intro e he
    exact h.failing e (by simpa using he)

/-- The source ends behind its last message. -/
theorem endOfInput (h : s.Allows messages events) (all : brought events = messages) :
    s.Allows messages (events ++ [.endOfInput]) := by
  have same : brought (events ++ [.endOfInput]) = messages := by
    rw [PumpEvent.brought_append]
    exact (List.append_nil _).trans all
  refine ⟨⟨[], (List.append_nil _).trans same⟩, fun _ => same, ?_, ?_⟩
  · intro hrefused
    exact h.refused (by simpa using hrefused)
  · intro e he
    exact h.failing e (by simpa using he)

/-- A tool that does not read refuses its input. -/
theorem refuse (h : s.Allows messages events) (closed : s.readsInput = false) :
    s.Allows messages (events ++ [.refused]) := by
  have same : brought (events ++ [.refused]) = brought events := by
    rw [PumpEvent.brought_append]
    exact List.append_nil _
  refine ⟨?_, ?_, fun _ => closed, ?_⟩
  · rw [same]
    exact h.inOrder
  · intro hend
    rw [same]
    exact h.ended (by simpa using hend)
  · intro e he
    exact h.failing e (by simpa using he)

end Session.Allows

namespace Pump

open PumpEvent (accepted brought outputs permits)

variable {σ τ : Type} [Plugin σ] [Sink τ] {s : Session} {messages : List (Except Error Frame)}
  {start : Pump σ τ} {events : List PumpEvent}

/-- The machine lets an event happen, or fails: it was cancelled, or the event itself failed. -/
theorem Reaches.next {p : Pump σ τ} {event : PumpEvent} (h : Reaches start events p)
    (earlier : s.Allows messages events) (allows : s.Allows messages (events ++ [event]))
    (enabled : p.enabled event = true) (expects : Expects s p event)
    (other : event ≠ .outputClosed) :
    (∃ q, p.next event = (q, .going) ∧ p.step event = (q, .going) ∧
      Reaches start (events ++ [event]) q) ∨
    (∃ q e, p.next event = (q, .failed e) ∧ Breaks s start messages q e) := by
  cases hcancelled : p.run.cancelled with
  | true =>
      -- cancellation comes before the event
      have cancels := earlier.concat .cancel rfl (by simp) (by simp) (by simp)
      have hnext : p.next event = p.step .cancel := by simp [Pump.next, hcancelled]
      exact .inr ⟨_, _, hnext, .mk h cancels rfl hcancelled rfl⟩
  | false =>
      have hnext : p.next event = p.step event := by simp [Pump.next, hcancelled]
      rw [hnext]
      rcases hstep : p.step event with ⟨q, status⟩
      cases status with
      | going => exact .inl ⟨q, rfl, rfl, h.step enabled hstep⟩
      | done all => exact absurd (step_done_iff.1 (congrArg Prod.snd hstep)).1 other
      | failed e => exact .inr ⟨q, e, rfl, .mk h allows enabled expects hstep⟩

/-- The state of the pump at a request for the next message. -/
structure Reads (start : Pump σ τ) (events : List PumpEvent) (p : Pump σ τ) : Prop where
  reaches : Reaches start events p
  unfinished : .endOfInput ∉ events
  live : .refused ∉ events
  nothingWaits : p.pending = none
  unheard : outputs events = []

/-- The input of the tool is complete, as far as the tool takes it. -/
inductive Supplied (s : Session) (start : Pump σ τ) (messages : List (Except Error Frame)) :
    Pump σ τ → Prop where
  | mk {events : List PumpEvent} {p : Pump σ τ} (reaches : Reaches start events p)
      (allows : s.Allows messages events) (unheard : outputs events = [])
      (whole : s.readsInput = true → .endOfInput ∈ events) : Supplied s start messages p

section Fresh

variable {run : Run σ τ} {tool : String} {p : Pump σ τ}

theorem Reaches.open_of_unfinished (fresh : run.progress = {}) (h : Reaches { run, tool } events p)
    (unfinished : .endOfInput ∉ events) : p.inputDone = false ∧ p.inputOpen = true := by
  obtain ⟨outs, images, fed, drawn⟩ := h.exists_fed_drawn fresh
  have notDone : ¬p.inputDone = true := fun hdone => unfinished (fed.done_iff.1 hdone)
  refine ⟨by simpa using notDone, ?_⟩
  cases hopen : p.inputOpen with
  | true => rfl
  | false => exact absurd (fed.closed_iff.1 hopen).1 notDone

theorem Reaches.live_of_not_refused (fresh : run.progress = {}) (h : Reaches { run, tool } events p)
    (live : .refused ∉ events) : p.draining = false := by
  obtain ⟨outs, images, fed, drawn⟩ := h.exists_fed_drawn fresh
  have notDraining : ¬p.draining = true := fun hdraining => live (drawn.draining_iff.1 hdraining)
  simpa using notDraining

theorem Reads.canRead (fresh : run.progress = {}) (h : Reads { run, tool } events p) :
    p.canRead = true := by
  have hdone := (h.reaches.open_of_unfinished fresh h.unfinished).1
  have hlive := h.reaches.live_of_not_refused fresh h.live
  simp [Pump.canRead, hdone, hlive, h.nothingWaits]

omit [Plugin σ] [Sink τ] in
theorem send_pending (p : Pump σ τ) : p.send.pending = none := by
  rw [send]
  split
  · assumption
  · rfl

/-- Delivery of a message: pending data is sent or refused, and without any nothing happens. -/
theorem Reaches.deliver (fresh : run.progress = {}) (h : Reaches { run, tool } events p)
    (unfinished : .endOfInput ∉ events) (live : .refused ∉ events) (unheard : outputs events = [])
    (allows : s.Allows messages events) :
    (∃ q events', p.deliver s = (q, .going) ∧ q.draining = false ∧ Reads { run, tool } events' q ∧
      s.Allows messages events' ∧ brought events' = brought events) ∨
    (∃ q, p.deliver s = (q, .going) ∧ q.draining = true ∧ Supplied s { run, tool } messages q) ∨
    (∃ q e, p.deliver s = (q, .failed e) ∧ Breaks s { run, tool } messages q e) := by
  have hopen := (h.open_of_unfinished fresh unfinished).2
  have hlive := h.live_of_not_refused fresh live
  cases hpending : p.pending with
  | none =>
      have hsend : p.canSend = false := by simp [Pump.canSend, hpending]
      refine .inl ⟨p, events, ?_, hlive, ⟨h, unfinished, live, hpending, unheard⟩, allows, rfl⟩
      simp [Pump.deliver, hsend]
  | some piece =>
      have hsend : p.canSend = true := by simp [Pump.canSend, hpending, hopen, hlive]
      cases htakes : s.takes p.sentSize with
      | true =>
          have hdeliver : p.deliver s = p.next .permit := by simp [Pump.deliver, hsend, htakes]
          have allows' := allows.concat .permit rfl (by simp) (by simp) (by simp)
          rw [hdeliver]
          rcases h.next allows allows' hsend trivial (by simp) with ⟨q, hnext, hstep, reaches⟩ |
            ⟨q, e, hnext, breaks⟩
          · -- the piece is gone, and sending it refuses nothing
            have hkept : p.send.draining = p.draining := by
              rw [send]
              split <;> rfl
            cases hstep
            refine .inl ⟨_, events ++ [.permit], hnext, hkept.trans hlive,
              ⟨reaches, ?_, ?_, p.send_pending, ?_⟩, allows', ?_⟩
            · simpa using unfinished
            · simpa using live
            · rw [PumpEvent.outputs_append, unheard]
              rfl
            · rw [PumpEvent.brought_append]
              exact List.append_nil _
          · exact .inr (.inr ⟨q, e, hnext, breaks⟩)
      | false =>
          have hdeliver : p.deliver s = p.next .refused := by simp [Pump.deliver, hsend, htakes]
          have hcloses : s.readsInput = false := by
            simp only [Session.takes, Bool.or_eq_false_iff] at htakes
            exact htakes.1
          have allows' := allows.refuse hcloses
          rw [hdeliver]
          rcases h.next allows allows' hsend trivial (by simp) with ⟨q, hnext, hstep, reaches⟩ |
            ⟨q, e, hnext, breaks⟩
          · cases hstep
            refine .inr (.inl ⟨_, hnext, rfl, .mk reaches allows' ?_ ?_⟩)
            · rw [PumpEvent.outputs_append, unheard]
              rfl
            · intro hreads
              exact absurd (hcloses.symm.trans hreads) Bool.false_ne_true
          · exact .inr (.inr ⟨q, e, hnext, breaks⟩)

/-- The machine feeds the tool to the end of its source, unless the tool refuses or an event fails.
-/
theorem Reads.feed (fresh : run.progress = {}) (h : Reads { run, tool } events p)
    (allows : s.Allows messages events) {rest : List (Except Error Frame)}
    (left : brought events ++ rest = messages) :
    (∃ q, p.feed s rest = (q, .going) ∧ Supplied s { run, tool } messages q) ∨
    (∃ q e, p.feed s rest = (q, .failed e) ∧ Breaks s { run, tool } messages q e) := by
  induction rest generalizing events p with
  | nil =>
      have hread : p.enabled .endOfInput = true := h.canRead fresh
      have allows' := allows.endOfInput (by simpa using left)
      rw [Pump.feed]
      rcases h.reaches.next allows allows' hread trivial (by simp) with ⟨q, hnext, _, reaches⟩ |
        ⟨q, e, hnext, breaks⟩
      · refine .inl ⟨q, hnext, .mk reaches allows' ?_ fun _ => by simp⟩
        rw [PumpEvent.outputs_append, h.unheard]
        rfl
      · exact .inr ⟨q, e, hnext, breaks⟩
  | cons m rest ih =>
      have hread : p.enabled (.message m) = true := h.canRead fresh
      have allows' := allows.message left h.unfinished
      rw [Pump.feed]
      rcases h.reaches.next allows allows' hread trivial (by simp) with ⟨taken, hnext, _, reaches⟩ |
        ⟨q, e, hnext, breaks⟩
      · have unheard' : outputs (events ++ [.message m]) = [] := by
          rw [PumpEvent.outputs_append, h.unheard]
          rfl
        have delivered := reaches.deliver fresh (by simpa using h.unfinished)
          (by simpa using h.live) unheard' allows'
        simp only [hnext]
        rcases delivered with ⟨q, events', hdeliver, hlive, reads, allows'', same⟩ |
          ⟨q, hdeliver, hdraining, supplied⟩ | ⟨q, e, hdeliver, breaks⟩
        · -- the piece was sent or was empty, so the next message is requested
          have left' : brought events' ++ rest = messages := by
            rw [same, PumpEvent.brought_append, List.append_assoc]
            exact left
          simp only [hdeliver, hlive, Bool.false_eq_true, if_false]
          exact ih reads allows'' left'
        · simp only [hdeliver, hdraining, if_true]
          exact .inl ⟨q, rfl, supplied⟩
        · simp only [hdeliver]
          exact .inr ⟨q, e, rfl, breaks⟩
      · simp only [hnext]
        exact .inr ⟨q, e, rfl, breaks⟩

/-! ## Receiving -/

/-- Output does not touch the side of the input. -/
theorem inputSide_of_output {p q : Pump σ τ} {data : Bytes}
    (h : p.step (.output data) = (q, .going)) : q.inputSide = p.inputSide := by
  rw [step] at h
  split at h
  · cases h
    rfl
  · obtain ⟨_, _, _, _, _, _, hinput⟩ := exists_passes_of_emit h
    exact hinput

/-- The machine receives all output, and then the event that ends it, unless something fails before.
-/
theorem Reaches.collect (h : Reaches start events p) (allows : s.Allows messages events)
    (chunks : List Bytes) (last : PumpEvent) :
    (∃ q, p.collect last chunks = q.next last ∧
      Reaches start (events ++ chunks.map .output) q ∧
      s.Allows messages (events ++ chunks.map .output) ∧ q.inputSide = p.inputSide) ∨
    (∃ q e, p.collect last chunks = (q, .failed e) ∧ Breaks s start messages q e) := by
  induction chunks generalizing events p with
  | nil => exact .inl ⟨p, rfl, by simpa using h, by simpa using allows, rfl⟩
  | cons data rest ih =>
      have allows' := allows.concat (.output data) rfl (by simp) (by simp) (by simp)
      rw [Pump.collect]
      rcases h.next allows allows' rfl trivial (by simp) with ⟨q, hnext, hstep, reaches⟩ |
        ⟨q, e, hnext, breaks⟩
      · simp only [hnext]
        rcases ih reaches allows' with ⟨r, hcollect, hreaches, hallows, hinput⟩ | hbreaks
        · refine .inl ⟨r, hcollect, ?_, ?_, hinput.trans (inputSide_of_output hstep)⟩
          · simpa using hreaches
          · simpa using hallows
        · exact .inr hbreaks
      · simp only [hnext]
        exact .inr ⟨q, e, rfl, breaks⟩

/-- An undisturbed schedule that ends in a failure is a run. -/
theorem Breaks.exists_drives (fresh : run.progress = {}) {q : Pump σ τ} {e : Error}
    (h : Breaks s { run, tool := s.tool } messages q e) :
    ∃ completed cause?, Drives False s run messages completed cause? q.run (.error e) := by
  cases h with
  | mk reaches allows enabled expects fails =>
      obtain ⟨outs, images, fed, drawn⟩ := reaches.exists_fed_drawn fresh
      obtain ⟨cause, trips⟩ := (step_failed_iff.1 (congrArg Prod.snd fails)).exists_trips
      exact ⟨_, some cause,
        .broken reaches allows enabled (.inr expects) (.mk fed.passes) trips fails⟩

theorem outputs_map_output (chunks : List Bytes) :
    outputs (chunks.map PumpEvent.output) = chunks := by
  induction chunks with
  | nil => rfl
  | cons data rest ih =>
      rw [List.map_cons, outputs, List.filterMap_cons_some (by rfl)]
      exact congrArg (data :: ·) ih

omit [Plugin σ] [Sink τ] in
theorem input_of_inputSide {p q : Pump σ τ} (h : q.inputSide = p.inputSide) :
    q.input = p.input := by
  have sent : q.sent = p.sent := congrArg InputSide.sent h
  rw [input, input, sent]

/-- A silent tool is received from until its time is over. -/
theorem Reaches.exists_drives_silent (fresh : run.progress = {})
    (reaches : Reaches { run, tool := s.tool } events p) (allows : s.Allows messages events)
    (silent : (s.behaviour (s.inputRead p.input)).2 = .silent) (chunks : List Bytes) :
    ∃ q e, p.collect (.outputFailed (s.failure (.timeout s.idleTimeout))) chunks = (q, .failed e) ∧
      ∃ completed cause?, Drives False s run messages completed cause? q.run (.error e) := by
  rcases reaches.collect allows chunks (.outputFailed (s.failure (.timeout s.idleTimeout))) with
    ⟨q, hcollect, reaches', allows', hinput⟩ | ⟨q, e, hcollect, breaks⟩
  · have allows'' :=
      allows'.concat (.outputFailed (s.failure (.timeout s.idleTimeout))) rfl (by simp)
      (by simp) (fun e he => ⟨.timeout s.idleTimeout, (PumpEvent.outputFailed.inj he).symm⟩)
    have expects : Expects s q (.outputFailed (s.failure (.timeout s.idleTimeout))) := by
      rw [Expects, input_of_inputSide hinput]
      exact silent
    rcases reaches'.next allows' allows'' rfl expects (by simp) with ⟨r, _, hstep, _⟩ |
      ⟨r, e, hnext, breaks⟩
    · cases hstep
    · exact ⟨r, e, hcollect.trans hnext, breaks.exists_drives fresh⟩
  · exact ⟨q, e, hcollect, breaks.exists_drives fresh⟩

/-- Any other tool is received from until it closes its output, and then its exit decides. -/
theorem Reaches.exists_drives_closed (fresh : run.progress = {})
    (reaches : Reaches { run, tool := s.tool } events p) (allows : s.Allows messages events)
    (unheard : outputs events = []) (whole : s.readsInput = true → .endOfInput ∈ events) :
    let reply := s.behaviour (s.inputRead p.input)
    (∃ q e, p.collect .outputClosed (Session.outputChunks reply.1) = (q, .failed e) ∧
      ∃ completed cause?, Drives False s run messages completed cause? q.run (.error e)) ∨
    (∃ q complete, p.collect .outputClosed (Session.outputChunks reply.1) = (q, .done complete) ∧
      ∀ fault lines, (s.readsInput = true → fault = none) →
        ∃ completed, Drives False s run messages completed
          (s.cause? reply.2 fault q.received complete) (q.run.log lines)
          (q.run.resultOf (s.cause? reply.2 fault q.received complete))) := by
  intro reply
  rcases reaches.collect allows (Session.outputChunks reply.1) .outputClosed with
    ⟨q, hcollect, reaches', allows', hinput⟩ | ⟨q, e, hcollect, breaks⟩
  · cases hcancelled : q.run.cancelled with
    | true =>
        -- the run is cancelled when all output was received
        have hnext : q.next .outputClosed = q.step .cancel := by simp [Pump.next, hcancelled]
        have cancels := allows'.concat .cancel rfl (by simp) (by simp) (by simp)
        refine .inl ⟨_, _, hcollect.trans hnext, ?_⟩
        exact Breaks.exists_drives fresh (.mk reaches' cancels rfl hcancelled rfl)
    | false =>
        have hnext : q.next .outputClosed = q.step .outputClosed := by simp [Pump.next, hcancelled]
        refine .inr ⟨q, _, hcollect.trans hnext, ?_⟩
        intro fault lines unbroken
        obtain ⟨outs, images, fed, drawn⟩ := reaches'.exists_fed_drawn fresh
        have hreply : s.behaviour (s.inputRead q.input) = reply := by
          rw [input_of_inputSide hinput]
        have answered : (outputs (events ++ (Session.outputChunks reply.1).map .output)).flatten =
            (s.behaviour (s.inputRead q.input)).1 := by
          rw [PumpEvent.outputs_append, unheard, List.nil_append, outputs_map_output, hreply]
          exact Session.flatten_outputChunks reply.1
        have drives : Drives False s run messages _ _ _ _ := .exited reaches' allows' answered
          unbroken (fun hreads _ => List.mem_append_left _ (whole hreads))
            rfl (.mk fed.passes) lines
        rw [hreply] at drives
        exact ⟨_, drives⟩
  · exact .inl ⟨q, e, hcollect, breaks.exists_drives fresh⟩

/-- The machine ends a run through a tool in one of the ways in which it can end. -/
theorem exists_drives_drive (run : Run σ τ) (fresh : run.progress = {}) (s : Session)
    (messages : List (Except Error Frame)) :
    ∃ completed cause?, Drives False s run messages completed cause? (Pump.drive s run messages).1
      (Pump.drive s run messages).2 := by
  have reads : Reads { run, tool := s.tool } [] ({ run, tool := s.tool } : Pump σ τ) :=
    ⟨.start, by simp, by simp, rfl, rfl⟩
  rw [Pump.drive]
  rcases reads.feed fresh (.start s messages) rfl with ⟨p, hfeed, supplied⟩ | ⟨p, e, hfeed, breaks⟩
  · cases supplied with
    | mk reaches allows unheard whole =>
        simp only [hfeed]
        by_cases silent : (s.behaviour (s.inputRead p.input)).2 = .silent
        · -- a silent tool is logged before its output is received
          obtain ⟨q, e, hcollect, drives⟩ :=
            (reaches.logged [s.idleLine]).exists_drives_silent fresh
            allows silent (Session.outputChunks (s.behaviour (s.inputRead p.input)).1)
          simp only [silent, if_true, hcollect]
          exact drives
        · simp only [silent, if_false]
          rcases reaches.exists_drives_closed fresh allows unheard whole with
            ⟨q, e, hcollect, drives⟩ | ⟨q, complete, hcollect, drives⟩
          · simp only [hcollect]
            exact drives
          · have unbroken : s.readsInput = true → s.writeFault? q.sentSize = none := by
              intro hreads
              simp [Session.writeFault?, Session.takes, hreads]
            simp only [hcollect]
            obtain ⟨completed, h⟩ := drives (s.writeFault? q.sentSize) _ unbroken
            exact ⟨completed, _, h⟩
  · simp only [hfeed]
    exact breaks.exists_drives fresh

end Fresh

end Pump

end Transcode
