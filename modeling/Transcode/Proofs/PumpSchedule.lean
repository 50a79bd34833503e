import Transcode.Codec.Passthrough
import Transcode.Pump
import Transcode.Proofs.Passage
/-!
# The pump under every schedule

A schedule is a list of events, each of which can happen when its turn comes: `Pump.Plays` relates
it to the state of the pump after it. The state is determined by the schedule. On the side of the
input (`Pump.Fed`) the pieces sent to the tool, followed by the pending one, are the images of the
frames taken under the plugins before it; on the side of the output (`Pump.Drawn`) the sink took the
images of the pieces received under the plugins behind it. The two sides share nothing but the
schedule, so an event on one side leaves the other alone.
-/

set_option autoImplicit false

namespace Transcode

/-! ## Projections of a schedule -/

namespace PumpEvent

/-- The frame an event brings. -/
def frame? : PumpEvent → Option Frame
  | .message (.ok frame) => some frame
  | _ => none

/-- The frames a schedule brings, in their order. -/
def accepted (events : List PumpEvent) : List Frame :=
  events.filterMap frame?

/-- The pieces of output a schedule brings, up to the event by which the tool refuses its input. -/
def heard : List PumpEvent → List Bytes
  | [] => []
  | .refused :: _ => []
  | .output data :: rest => data :: heard rest
  | _ :: rest => heard rest

theorem accepted_concat (events : List PumpEvent) (event : PumpEvent) :
    accepted (events ++ [event]) = accepted events ++ event.frame?.toList := by
  rw [accepted, List.filterMap_append]
  cases h : event.frame? <;> simp [accepted, h]

theorem heard_append_of_mem {events : List PumpEvent} (h : .refused ∈ events)
    (more : List PumpEvent) : heard (events ++ more) = heard events := by
  induction events with
  | nil => cases h
  | cons event rest ih =>
      cases event with
      | refused => rfl
      | output data => simp only [List.cons_append, heard, ih (by simpa using h)]
      | cancel | permit | message _ | endOfInput | outputFailed _ | outputClosed =>
          simp only [List.cons_append, heard, ih (by simpa using h)]

theorem heard_append_of_not_mem {events : List PumpEvent} (h : .refused ∉ events)
    (more : List PumpEvent) : heard (events ++ more) = heard events ++ heard more := by
  induction events with
  | nil => rfl
  | cons event rest ih =>
      cases event with
      | refused => exact absurd List.mem_cons_self h
      | output data =>
          simp only [List.cons_append, heard, ih fun hrest => h (List.mem_cons_of_mem _ hrest)]
      | cancel | permit | message _ | endOfInput | outputFailed _ | outputClosed =>
          simp only [List.cons_append, heard, ih fun hrest => h (List.mem_cons_of_mem _ hrest)]

/-- An event that brings no output is not heard. -/
theorem heard_concat {events : List PumpEvent} {event : PumpEvent} (silent : heard [event] = []) :
    heard (events ++ [event]) = heard events := by
  by_cases h : .refused ∈ events
  · exact heard_append_of_mem h _
  · rw [heard_append_of_not_mem h, silent, List.append_nil]

end PumpEvent

theorem Frame.number_concat (start : Nat) (payloads : List Bytes) (data : Bytes) :
    number start (payloads ++ [data]) = number start payloads ++
      [⟨start + payloads.length, data⟩] := by
  induction payloads generalizing start with
  | nil => rfl
  | cons first rest ih =>
      simp only [List.cons_append, number, ih, List.length_cons]
      rw [Nat.add_assoc, Nat.add_comm 1]

namespace Pump

open PumpEvent (accepted heard)

/-! ## The side of the input -/

/-- The part of a pump on the side of the tool's input. -/
structure InputSide (σ : Type) where
  before : List σ
  sent : List Bytes
  pending : Option (Nat × Bytes)
  inputOpen : Bool
  inputDone : Bool
  framesIn : Nat
  lastIn : Option Nat
  lastDone : Option Nat

/-- The side of the input. -/
def inputSide {σ τ : Type} (p : Pump σ τ) : InputSide σ :=
  ⟨p.run.before, p.sent, p.pending, p.inputOpen, p.inputDone, p.run.progress.framesIn,
    p.run.progress.lastIn, p.run.progress.lastDone⟩

/-- The number of the last frame of a list. -/
def lastNumber (frames : List Frame) : Option Nat :=
  frames.getLast?.map Frame.sequence

/-- Invariant of a schedule on the side of the input; `outs` are the images of the frames taken. -/
structure Fed {σ : Type} [Plugin σ] (plugins : List σ) (events : List PumpEvent) (outs : List Frame)
    (s : InputSide σ) : Prop where
  /-- Every frame passed the plugins once, in its turn. -/
  passes : Plugin.PassesAll plugins (accepted events) outs s.before
  /-- Nothing is lost, doubled or moved; what is empty is left out. -/
  pieces : s.sent.reverse ++ (s.pending.map Prod.snd).toList =
    (outs.map Frame.data).filter fun data => !data.isEmpty
  /-- Pending data belongs to the last frame. -/
  waiting : ∀ number data, s.pending = some (number, data) →
    lastNumber (accepted events) = some number
  done_iff : s.inputDone = true ↔ .endOfInput ∈ events
  /-- At the end of the source nothing waits. -/
  nothing_waits : s.inputDone = true → s.pending = none
  closed_iff : s.inputOpen = false ↔ s.inputDone = true ∧ s.pending = none
  increasing : (accepted events).Pairwise fun a b => a.sequence < b.sequence
  framesIn_eq : s.framesIn = (accepted events).length
  lastIn_eq : s.lastIn = lastNumber (accepted events)
  /-- A frame is completed once nothing of it waits. -/
  lastDone_eq : s.lastDone =
    if s.pending.isSome then lastNumber (accepted events).dropLast else lastNumber (accepted events)

namespace Fed

variable {σ : Type} [Plugin σ] {plugins : List σ} {events : List PumpEvent} {outs : List Frame}
  {s : InputSide σ}

theorem start (plugins : List σ) :
    Fed plugins [] [] ⟨plugins, [], none, true, false, 0, none, none⟩ where
  passes := .nil plugins
  pieces := rfl
  waiting := by simp
  done_iff := by simp
  nothing_waits := by simp
  closed_iff := by simp
  increasing := .nil
  framesIn_eq := rfl
  lastIn_eq := rfl
  lastDone_eq := rfl

/-- An event that brings no frame and not the end of the source either. -/
theorem idle (h : Fed plugins events outs s) {event : PumpEvent} (noFrame : event.frame? = none)
    (noEnd : event ≠ .endOfInput) : Fed plugins (events ++ [event]) outs s := by
  have haccepted : accepted (events ++ [event]) = accepted events := by
    rw [PumpEvent.accepted_concat, noFrame, Option.toList_none, List.append_nil]
  have hend : .endOfInput ∈ events ++ [event] ↔ .endOfInput ∈ events := by
    simp [List.mem_append, Ne.symm noEnd]
  refine ⟨?_, h.pieces, ?_, h.done_iff.trans hend.symm, h.nothing_waits, h.closed_iff, ?_, ?_,
    ?_, ?_⟩ <;>
    rw [haccepted]
  · exact h.passes
  · exact h.waiting
  · exact h.increasing
  · exact h.framesIn_eq
  · exact h.lastIn_eq
  · exact h.lastDone_eq

/-- The piece that waits is sent, which completes its frame. -/
theorem send (h : Fed plugins events outs s) {number : Nat} {data : Bytes}
    (pending : s.pending = some (number, data)) :
    Fed plugins (events ++ [.permit]) outs
      ⟨s.before, data :: s.sent, none, s.inputOpen, s.inputDone, s.framesIn, s.lastIn,
        some number⟩ := by
  have hidle : Fed plugins (events ++ [.permit]) outs s := h.idle rfl (by simp)
  have hopen : s.inputDone = false := by
    cases hdone : s.inputDone with
    | false => rfl
    | true => exact absurd (h.nothing_waits hdone) (by simp [pending])
  refine ⟨hidle.passes, ?_, by simp, hidle.done_iff, fun _ => rfl, ?_, hidle.increasing,
    hidle.framesIn_eq, hidle.lastIn_eq, ?_⟩
  · have hpieces := h.pieces
    rw [pending] at hpieces
    simpa using hpieces
  · have hclosed := h.closed_iff
    simp only [hopen, pending] at hclosed ⊢
    simpa using hclosed
  · exact (hidle.waiting number data pending).symm

/-- The source is at its end. -/
theorem finish (h : Fed plugins events outs s) (pending : s.pending = none) :
    Fed plugins (events ++ [.endOfInput]) outs
      ⟨s.before, s.sent, s.pending, false, true, s.framesIn, s.lastIn, s.lastDone⟩ := by
  have haccepted : accepted (events ++ [.endOfInput]) = accepted events := by
    rw [PumpEvent.accepted_concat]
    exact List.append_nil _
  refine ⟨?_, h.pieces, ?_, by simp, fun _ => pending, by simp [pending], ?_, ?_, ?_, ?_⟩ <;>
    rw [haccepted]
  · exact h.passes
  · exact h.waiting
  · exact h.increasing
  · exact h.framesIn_eq
  · exact h.lastIn_eq
  · exact h.lastDone_eq

/-- The numbers stay in order behind a frame whose number is above the last one. -/
theorem increasing_concat {frames : List Frame} {frame : Frame}
    (increasing : frames.Pairwise fun a b => a.sequence < b.sequence)
    (precedes : ∀ previous, lastNumber frames = some previous → previous < frame.sequence) :
    (frames ++ [frame]).Pairwise fun a b => a.sequence < b.sequence := by
  refine List.pairwise_append.2 ⟨increasing, List.pairwise_singleton _ _, ?_⟩
  intro a ha b hb
  obtain rfl := List.mem_singleton.1 hb
  cases hlast : frames.getLast? with
  | none =>
      rw [List.getLast?_eq_none_iff.1 hlast] at ha
      cases ha
  | some last =>
      have hbelow : last.sequence < b.sequence := precedes _ (by rw [lastNumber, hlast]; rfl)
      obtain ⟨front, rfl⟩ := List.getLast?_eq_some_iff.1 hlast
      rcases List.mem_append.1 ha with hfront | hsingle
      · have hlow :=
          (List.pairwise_append.1 increasing).2.2 a hfront last (List.mem_singleton_self _)
        exact Nat.lt_trans hlow hbelow
      · rw [List.mem_singleton.1 hsingle]
        exact hbelow

/-- A frame is taken. What the plugins make of it waits, and if that is empty the frame is
completed. -/
theorem take (h : Fed plugins events outs s) (pending : s.pending = none)
    (unfinished : s.inputDone = false)
    {frame image : Frame} {plugins' : List σ} {asked : Bool}
    (precedes : ∀ previous, s.lastIn = some previous → previous < frame.sequence)
    (passes : Plugin.Passes frame s.before image plugins' asked) :
    Fed plugins (events ++ [.message (.ok frame)]) (outs ++ [image])
      ⟨plugins', s.sent, if image.data = [] then none else some (frame.sequence, image.data),
        s.inputOpen, s.inputDone, s.framesIn + 1, some frame.sequence,
        if image.data = [] then some frame.sequence else s.lastDone⟩ := by
  have haccepted : accepted (events ++ [.message (.ok frame)]) = accepted events ++ [frame] :=
    PumpEvent.accepted_concat events _
  have hlast : lastNumber (accepted events ++ [frame]) = some frame.sequence := by simp [lastNumber]
  refine ⟨?_, ?_, ?_, ?_, by simp [unfinished], ?_, ?_, ?_, ?_, ?_⟩
  · rw [haccepted]
    exact h.passes.snoc passes
  · have hpieces := h.pieces
    rw [pending] at hpieces
    by_cases hempty : image.data = []
    · simpa [hempty] using hpieces
    · have hkept : image.data.isEmpty = false := by simpa using hempty
      simpa [hempty, hkept] using hpieces
  · intro number data hpending
    rw [haccepted, hlast]
    split at hpending
    · cases hpending
    · cases hpending
      rfl
  · have hdone := h.done_iff
    simpa using hdone
  · have hclosed := h.closed_iff
    simp only [unfinished] at hclosed ⊢
    simpa using hclosed
  · rw [haccepted]
    exact increasing_concat h.increasing fun previous hprevious =>
      precedes previous (h.lastIn_eq.trans hprevious)
  · rw [haccepted, h.framesIn_eq, List.length_append, List.length_singleton]
  · rw [haccepted]
    exact hlast.symm
  · have hdone := h.lastDone_eq
    rw [pending] at hdone
    rw [haccepted]
    by_cases hempty : image.data = []
    · simp [hempty, hlast]
    · simpa [hempty] using hdone

end Fed

/-! ## The side of the output -/

/-- The part of a pump on the side of the tool's output. -/
structure OutputSide (σ τ : Type) where
  after : List σ
  sink : τ
  draining : Bool
  outputSequence : Nat
  framesOut : Nat
  bytesOut : Nat

/-- The side of the output. -/
def outputSide {σ τ : Type} (p : Pump σ τ) : OutputSide σ τ :=
  ⟨p.run.after, p.run.sink, p.draining, p.outputSequence, p.run.progress.framesOut,
    p.run.progress.bytesOut⟩

/-- Invariant of a schedule on the side of the output; `images` are the images of the pieces
received. -/
structure Drawn {σ τ : Type} [Plugin σ] [Sink τ] (plugins : List σ) (sink : τ)
    (events : List PumpEvent) (images : List Frame) (s : OutputSide σ τ) : Prop where
  /-- The pieces are frames numbered from one on, and passed the plugins in their turn. -/
  passes : Plugin.PassesAll plugins (Frame.number 1 (heard events)) images s.after
  takes : Sink.Takes sink images s.sink
  draining_iff : s.draining = true ↔ .refused ∈ events
  outputSequence_eq : s.outputSequence = (heard events).length
  framesOut_eq : s.framesOut = images.length
  bytesOut_eq : s.bytesOut = (images.flatMap Frame.data).length

namespace Drawn

variable {σ τ : Type} [Plugin σ] [Sink τ] {plugins : List σ} {sink : τ} {events : List PumpEvent}
  {images : List Frame} {s : OutputSide σ τ}

theorem start (plugins : List σ) (sink : τ) :
    Drawn plugins sink [] [] ⟨plugins, sink, false, 0, 0, 0⟩ where
  passes := .nil plugins
  takes := .nil sink
  draining_iff := by simp
  outputSequence_eq := rfl
  framesOut_eq := rfl
  bytesOut_eq := rfl

/-- An event that brings no output and no refusal either. -/
theorem idle (h : Drawn plugins sink events images s) {event : PumpEvent}
    (silent : heard (events ++ [event]) = heard events) (noRefusal : event ≠ .refused) :
    Drawn plugins sink (events ++ [event]) images s := by
  have hrefused : .refused ∈ events ++ [event] ↔ .refused ∈ events := by
    simp [List.mem_append, Ne.symm noRefusal]
  refine ⟨?_, h.takes, h.draining_iff.trans hrefused.symm, ?_, h.framesOut_eq, h.bytesOut_eq⟩
  · rw [silent]
    exact h.passes
  · rw [silent]
    exact h.outputSequence_eq

/-- The tool refuses its input: from now on its output is not heard. -/
theorem refuse (h : Drawn plugins sink events images s) :
    Drawn plugins sink (events ++ [.refused]) images
      ⟨s.after, s.sink, true, s.outputSequence, s.framesOut, s.bytesOut⟩ := by
  have hsilent : heard (events ++ [.refused]) = heard events := PumpEvent.heard_concat rfl
  refine ⟨?_, h.takes, by simp, ?_, h.framesOut_eq, h.bytesOut_eq⟩
  · rw [hsilent]
    exact h.passes
  · rw [hsilent]
    exact h.outputSequence_eq

/-- A piece of output reaches the sink. -/
theorem emit (h : Drawn plugins sink events images s) (live : s.draining = false) {data : Bytes}
    {image : Frame} {plugins' : List σ} {asked : Bool}
    (passes : Plugin.Passes ⟨s.outputSequence + 1, data⟩ s.after image plugins' asked)
    (taken : (Sink.write image s.sink).result = .ok ()) :
    Drawn plugins sink (events ++ [.output data]) (images ++ [image])
      ⟨plugins', (Sink.write image s.sink).state, s.draining, s.outputSequence + 1, s.framesOut + 1,
        s.bytesOut + image.size⟩ := by
  have hlive : .refused ∉ events := by
    intro hrefused
    exact Bool.false_ne_true (live.symm.trans (h.draining_iff.2 hrefused))
  have hheard : heard (events ++ [.output data]) = heard events ++ [data] :=
    PumpEvent.heard_append_of_not_mem hlive _
  refine ⟨?_, h.takes.snoc taken, ?_, ?_, ?_, ?_⟩
  · rw [hheard, Frame.number_concat, Nat.add_comm 1, ← h.outputSequence_eq]
    exact h.passes.snoc passes
  · have hdraining := h.draining_iff
    simpa using hdraining
  · rw [hheard, List.length_append, List.length_singleton, h.outputSequence_eq]
  · rw [h.framesOut_eq, List.length_append, List.length_singleton]
  · rw [h.bytesOut_eq, List.flatMap_append, List.length_append, List.flatMap_singleton]
    rfl

end Drawn

/-! ## Steps -/

variable {σ τ : Type} [Plugin σ] [Sink τ]

omit [Sink τ] in
/-- A message after which the pump goes on is a frame that passed the plugins. -/
theorem exists_passes_of_take {p p' : Pump σ τ} {m : Except Error Frame}
    (h : p.take m = (p', .going)) :
    ∃ frame image plugins asked, m = .ok frame ∧
      (∀ previous, p.run.progress.lastIn = some previous → previous < frame.sequence) ∧
      Plugin.Passes frame p.run.before image plugins asked ∧
      p'.inputSide = ⟨plugins, p.sent,
        if image.data = [] then p.pending else some (frame.sequence, image.data), p.inputOpen,
        p.inputDone, p.run.progress.framesIn + 1, some frame.sequence,
        if image.data = [] then some frame.sequence else p.run.progress.lastDone⟩ ∧
      p'.outputSide = p.outputSide := by
  rcases p.run.progress.accept_eq m with ⟨e, rfl, haccept⟩ | ⟨frame, previous, rfl, _, _, haccept⟩ |
    ⟨frame, rfl, above, haccept⟩
  · simp [take, haccept] at h
  · simp [take, haccept] at h
  · cases hpass : (Plugin.processAll frame p.run.before).result with
    | error e => simp [take, haccept, Run.applyBefore, hpass] at h
    | ok image =>
        refine ⟨frame, image, _, _, rfl, above, Plugin.passes_of_processAll hpass, ?_⟩
        simp only [take, haccept, Run.applyBefore, hpass, mapError_ok] at h
        by_cases hempty : image.data = []
        · rw [if_pos hempty, Prod.mk.injEq] at h
          rw [← h.1, if_pos hempty, if_pos hempty]
          exact ⟨rfl, rfl⟩
        · rw [if_neg hempty, Prod.mk.injEq] at h
          rw [← h.1, if_neg hempty, if_neg hempty]
          exact ⟨rfl, rfl⟩

/-- A piece of output after which the pump goes on passed the plugins into the sink. -/
theorem exists_passes_of_emit {p p' : Pump σ τ} {data : Bytes} (h : p.emit data = (p', .going)) :
    ∃ image plugins asked,
      Plugin.Passes ⟨p.outputSequence + 1, data⟩ p.run.after image plugins asked ∧
      (Sink.write image p.run.sink).result = .ok () ∧
      p'.outputSide = ⟨plugins, (Sink.write image p.run.sink).state, p.draining,
        p.outputSequence + 1, p.run.progress.framesOut + 1, p.run.progress.bytesOut + image.size⟩ ∧
      p'.inputSide = p.inputSide := by
  cases hpass : (Plugin.processAll ⟨p.outputSequence + 1, data⟩ p.run.after).result with
  | error e => simp [emit, Run.applyAfter, hpass] at h
  | ok image =>
      cases hwrite : (Sink.write image p.run.sink).result with
      | error e => simp [emit, Run.applyAfter, hpass, Run.write, hwrite] at h
      | ok _ =>
          refine ⟨image, _, _, Plugin.passes_of_processAll hpass, hwrite, ?_⟩
          simp only [emit, Run.applyAfter, hpass, mapError_ok, Run.write, hwrite,
            Prod.mk.injEq] at h
          rw [← h.1]
          exact ⟨rfl, rfl⟩

/-- An event that can happen, and after which the pump goes on, keeps both sides in order. -/
theorem exists_fed_drawn_step {plugins plugins' : List σ} {sink : τ} {events : List PumpEvent}
    {outs images : List Frame} {p p' : Pump σ τ} {event : PumpEvent}
    (fed : Fed plugins events outs p.inputSide)
    (drawn : Drawn plugins' sink events images p.outputSide)
    (enabled : p.enabled event = true) (goes : p.step event = (p', .going)) :
    ∃ outs' images', Fed plugins (events ++ [event]) outs' p'.inputSide ∧
      Drawn plugins' sink (events ++ [event]) images' p'.outputSide := by
  cases event with
  | cancel | outputFailed _ | outputClosed => cases goes
  | permit =>
      -- a piece waits only while the input is open, so sending it closes nothing
      obtain ⟨⟨number, data⟩, hpending⟩ : ∃ piece, p.pending = some piece := by
        simp only [Pump.enabled, canSend, Bool.and_eq_true, Option.isSome_iff_exists] at enabled
        exact enabled.2
      have hopen : p.inputDone = false := by
        cases hdone : p.inputDone with
        | false => rfl
        | true => cases hpending.symm.trans (fed.nothing_waits hdone)
      cases goes
      refine ⟨outs, images, ?_, ?_⟩
      · have hsent : p.send.release.inputSide = ⟨p.run.before, data :: p.sent, none, p.inputOpen,
            p.inputDone, p.run.progress.framesIn, p.run.progress.lastIn, some number⟩ := by
          simp [inputSide, release, complete, send, hpending, hopen, Progress.complete]
        rw [hsent]
        exact fed.send hpending
      · have hkept : p.send.release.outputSide = p.outputSide := by
          simp [outputSide, release, send, hpending, Progress.complete]
        rw [hkept]
        exact drawn.idle (PumpEvent.heard_concat rfl) (by simp)
  | refused =>
      cases goes
      exact ⟨outs, images, fed.idle rfl (by simp), drawn.refuse⟩
  | endOfInput =>
      have hpending : p.pending = none := by
        simp only [Pump.enabled, canRead, Bool.and_eq_true, Option.isNone_iff_eq_none] at enabled
        exact enabled.2
      cases goes
      refine ⟨outs, images, ?_, drawn.idle (PumpEvent.heard_concat rfl) (by simp)⟩
      have hclosed : (release { p with inputDone := true }).inputSide = ⟨p.run.before, p.sent,
          p.pending, false, true, p.run.progress.framesIn, p.run.progress.lastIn,
          p.run.progress.lastDone⟩ := by
        simp [inputSide, release, complete, hpending]
      rw [hclosed]
      exact fed.finish hpending
  | message m =>
      obtain ⟨hopen, hpending⟩ : p.inputDone = false ∧ p.pending = none := by
        simp only [Pump.enabled, canRead, Bool.and_eq_true, Option.isNone_iff_eq_none,
          Bool.not_eq_true'] at enabled
        exact ⟨enabled.1.2, enabled.2⟩
      rcases htake : p.take m with ⟨taken, status⟩
      simp only [step, htake, Prod.mk.injEq] at goes
      obtain ⟨rfl, rfl⟩ := goes
      obtain ⟨frame, image, plugins'', asked, rfl, precedes, passes, hinput, houtput⟩ :=
        exists_passes_of_take htake
      refine ⟨outs ++ [image], images, ?_, ?_⟩
      · -- the source is not at its end, so nothing is released
        have hreleased : taken.release.inputSide = taken.inputSide := by
          have hdone : taken.inputDone = false :=
            (congrArg InputSide.inputDone hinput).trans hopen
          simp [inputSide, release, complete, hdone]
        rw [hreleased, hinput, hpending]
        exact fed.take hpending hopen precedes passes
      · have hkept : taken.release.outputSide = p.outputSide := houtput
        rw [hkept]
        exact drawn.idle (PumpEvent.heard_concat rfl) (by simp)
  | output data =>
      -- output that comes after a refusal is thrown away, and is not heard
      cases hdraining : p.draining with
      | true =>
          simp only [step, hdraining, if_true, Prod.mk.injEq] at goes
          obtain ⟨rfl, _⟩ := goes
          refine ⟨outs, images, fed.idle rfl (by simp), ?_⟩
          have hrefused : .refused ∈ events := drawn.draining_iff.1 hdraining
          exact drawn.idle (PumpEvent.heard_append_of_mem hrefused _) (by simp)
      | false =>
          simp only [step, hdraining, Bool.false_eq_true, if_false] at goes
          obtain ⟨image, plugins'', asked, passes, taken, houtput, hinput⟩ :=
            exists_passes_of_emit goes
          refine ⟨outs, images ++ [image], ?_, ?_⟩
          · rw [hinput]
            exact fed.idle rfl (by simp)
          · rw [houtput]
            exact drawn.emit hdraining passes taken

/-- Where a pump gets by events each of which can happen in its turn. -/
inductive Plays (start : Pump σ τ) : List PumpEvent → Pump σ τ → Prop where
  | start : Plays start [] start
  | step {events : List PumpEvent} {p p' : Pump σ τ} {event : PumpEvent}
      (earlier : Plays start events p) (enabled : p.enabled event = true)
      (goes : p.step event = (p', .going)) : Plays start (events ++ [event]) p'

/-- Every schedule keeps both sides in order. -/
theorem Plays.exists_fed_drawn {run : Run σ τ} {tool : String} (fresh : run.progress = {})
    {events : List PumpEvent} {p : Pump σ τ} (h : Plays { run, tool } events p) :
    ∃ outs images, Fed run.before events outs p.inputSide ∧
      Drawn run.after run.sink events images p.outputSide := by
  induction h with
  | start =>
      refine ⟨[], [], ?_, ?_⟩
      · simpa [inputSide, fresh] using Fed.start run.before
      · simpa [outputSide, fresh] using Drawn.start run.after run.sink
  | step _ enabled goes ih =>
      obtain ⟨outs, images, fed, drawn⟩ := ih
      exact exists_fed_drawn_step fed drawn enabled goes

/-! ## Ends -/

/-- The failures of the pump by event. Each names the last frame completed. -/
inductive Fails (p : Pump σ τ) : PumpEvent → Error → Prop where
  | cancelled : Fails p .cancel (.cancelled p.run.progress.lastDone)
  | source (e : Error) :
      Fails p (.message (.error e)) (e.toJobFailure p.run.progress.lastDone)
  | order {frame : Frame} {previous : Nat} (last : p.run.progress.lastIn = some previous)
      (notAbove : frame.sequence ≤ previous) :
      Fails p (.message (.ok frame))
        (.pipeline (.outOfOrder previous frame.sequence) p.run.progress.lastDone)
  | before {frame : Frame} {e : Error}
      (precedes : ∀ previous, p.run.progress.lastIn = some previous → previous < frame.sequence)
      (refuses : Plugin.Refuses frame p.run.before e) :
      Fails p (.message (.ok frame)) (e.toJobFailure p.run.progress.lastDone)
  | after {data : Bytes} {e : Error} (live : p.draining = false)
      (refuses : Plugin.Refuses ⟨p.outputSequence + 1, data⟩ p.run.after e) :
      Fails p (.output data) (e.toJobFailure p.run.progress.lastDone)
  | sink {data : Bytes} {image : Frame} {plugins : List σ} {asked : Bool} {e : Error}
      (live : p.draining = false)
      (passes : Plugin.Passes ⟨p.outputSequence + 1, data⟩ p.run.after image plugins asked)
      (refused : (Sink.write image p.run.sink).result = .error e) :
      Fails p (.output data) (e.toJobFailure p.run.progress.lastDone)
  | output (e : Error) : Fails p (.outputFailed e) (e.toJobFailure p.run.progress.lastDone)

theorem fails_of_message {p : Pump σ τ} {m : Except Error Frame} {e : Error}
    (h : (p.take m).2 = .failed e) : Fails p (.message m) e := by
  rcases p.run.progress.accept_eq m with ⟨cause, rfl, haccept⟩ |
    ⟨frame, previous, rfl, last, notAbove, haccept⟩ | ⟨frame, rfl, precedes, haccept⟩
  · simp only [take, haccept, PumpStatus.failed.injEq] at h
    subst h
    exact .source cause
  · simp only [take, haccept, PumpStatus.failed.injEq] at h
    subst h
    exact .order last notAbove
  · cases hpass : (Plugin.processAll frame p.run.before).result with
    | error cause =>
        simp only [take, haccept, Run.applyBefore, hpass, mapError_error,
          PumpStatus.failed.injEq] at h
        subst h
        exact .before precedes (Plugin.refuses_of_processAll hpass)
    | ok image =>
        simp only [take, haccept, Run.applyBefore, hpass, mapError_ok] at h
        split at h <;> cases h

theorem fails_of_output {p : Pump σ τ} {data : Bytes} {e : Error} (live : p.draining = false)
    (h : (p.emit data).2 = .failed e) : Fails p (.output data) e := by
  cases hpass : (Plugin.processAll ⟨p.outputSequence + 1, data⟩ p.run.after).result with
  | error cause =>
      simp only [emit, Run.applyAfter, hpass, mapError_error, PumpStatus.failed.injEq] at h
      subst h
      exact .after live (Plugin.refuses_of_processAll hpass)
  | ok image =>
      cases hwrite : (Sink.write image p.run.sink).result with
      | ok _ => simp [emit, Run.applyAfter, hpass, Run.write, hwrite] at h
      | error cause =>
          simp only [emit, Run.applyAfter, hpass, mapError_ok, Run.write, hwrite,
            PumpStatus.failed.injEq] at h
          subst h
          exact .sink live (Plugin.passes_of_processAll hpass) hwrite

/-- The pump fails for one of these reasons, and for no other. -/
theorem step_failed_iff {p : Pump σ τ} {event : PumpEvent} {e : Error} :
    (p.step event).2 = .failed e ↔ Fails p event e := by
  constructor
  · intro h
    cases event with
    | cancel =>
        cases h
        exact .cancelled
    | permit | refused | endOfInput | outputClosed => cases h
    | message m => exact fails_of_message h
    | outputFailed cause =>
        cases h
        exact .output cause
    | output data =>
        cases hdraining : p.draining with
        | true => simp [step, hdraining] at h
        | false =>
            simp only [step, hdraining, Bool.false_eq_true, if_false] at h
            exact fails_of_output hdraining h
  · intro h
    cases h with
    | cancelled | source _ | output _ => rfl
    | @order frame previous last notAbove =>
        simp [step, take, Progress.accept, last, notAbove]
    | @before frame cause precedes refuses =>
        rcases p.run.progress.accept_eq (.ok frame) with ⟨_, ⟨⟩, _⟩ |
          ⟨_, previous, ⟨⟩, last, notAbove, _⟩ | ⟨_, ⟨⟩, _, haccept⟩
        · exact absurd notAbove (Nat.not_le.2 (precedes previous last))
        · simp [step, take, haccept, Run.applyBefore, refuses.processAll_eq, Run.fail]
    | after live refuses =>
        simp [step, live, emit, Run.applyAfter, refuses.processAll_eq, Run.fail]
    | sink live passes refused =>
        simp [step, live, emit, Run.applyAfter, passes.processAll_eq.1, Run.write,
          refused, Run.fail]

omit [Sink τ] in
theorem take_ne_done (p : Pump σ τ) (m : Except Error Frame) (all : Bool) :
    (p.take m).2 ≠ .done all := by
  simp only [take]
  split
  · simp
  · split
    · simp
    · split <;> simp

theorem emit_ne_done (p : Pump σ τ) (data : Bytes) (all : Bool) : (p.emit data).2 ≠ .done all := by
  simp only [emit]
  split
  · simp
  · split <;> simp

/-- The pump is done when the tool closes its output, and only then. -/
theorem step_done_iff {p : Pump σ τ} {event : PumpEvent} {all : Bool} :
    (p.step event).2 = .done all ↔ event = .outputClosed ∧ all = (!p.draining && p.complete) := by
  constructor
  · intro h
    cases event with
    | cancel | permit | refused | endOfInput | outputFailed _ => cases h
    | outputClosed =>
        cases h
        exact ⟨rfl, rfl⟩
    | message m => exact absurd h (p.take_ne_done m all)
    | output data =>
        simp only [step] at h
        split at h
        · cases h
        · exact absurd h (p.emit_ne_done data all)
  · rintro ⟨rfl, rfl⟩
    rfl

/-- **The pump is right under every schedule.** In every reachable state, the bytes sent to the tool
and those pending are the images of the frames taken, in their order, and the sink took the images
of the tool's output, numbered from one on (`Fed`, `Drawn`). When the tool closes its output the
pump is done, with all input sent if and only if the source reached its end and the tool never
refused; it fails for the reasons in `Fails` and no others. -/
theorem plays_in_order (run : Run σ τ) (tool : String) (fresh : run.progress = {})
    (events : List PumpEvent) (p : Pump σ τ) (h : Plays { run, tool } events p) :
    ∃ outs images,
      Fed run.before events outs p.inputSide ∧
      Drawn run.after run.sink events images p.outputSide ∧
      p.input ++ (p.pending.map Prod.snd).getD [] = (outs.map Frame.data).flatten ∧
      (∀ event all, (p.step event).2 = .done all ↔
        event = .outputClosed ∧ (all = true ↔ .endOfInput ∈ events ∧ .refused ∉ events)) ∧
      (∀ event e, (p.step event).2 = .failed e ↔ Fails p event e) := by
  obtain ⟨outs, images, fed, drawn⟩ := h.exists_fed_drawn fresh
  refine ⟨outs, images, fed, drawn, ?_, ?_, fun event e => step_failed_iff⟩
  · -- empty pieces are not sent, which the bytes do not show
    have hpieces : p.sent.reverse ++ (p.pending.map Prod.snd).toList = _ := fed.pieces
    have hbytes := congrArg List.flatten hpieces
    rw [List.flatten_append, List.flatten_filter_not_isEmpty] at hbytes
    rw [← hbytes, input]
    cases p.pending with
    | none => rfl
    | some piece => simp
  · intro event all
    rw [step_done_iff]
    have hcomplete : p.complete = true ↔ .endOfInput ∈ events := by
      rw [← fed.done_iff, complete, Bool.and_eq_true, Option.isNone_iff_eq_none]
      exact ⟨And.left, fun hdone => ⟨hdone, fed.nothing_waits hdone⟩⟩
    have hlive : (!p.draining) = true ↔ .refused ∉ events := by
      rw [← drawn.draining_iff, Bool.not_eq_true', Bool.not_eq_true]
      rfl
    rw [Bool.eq_iff_iff, Bool.and_eq_true, hcomplete, hlive, and_comm (a := .endOfInput ∈ events)]

/-- Raw video on its way through a tool. -/
def sampleRun : Run Passthrough MemorySink where
  before := [.video .encoder]
  after := [.video .decoder]
  sink := {}

/-- Output comes before any input was sent, one frame is empty, and the last one is refused. -/
def sampleEvents : List PumpEvent :=
  [.message (.ok ⟨3, [1]⟩), .output [9], .permit, .message (.ok ⟨5, []⟩), .message (.ok ⟨8, [2]⟩),
    .refused, .output [7]]

/-- The frame with the number 5 was empty and counts as completed; the one with the number 8 waits.
-/
theorem plays_in_order_sample :
    ∃ p outs images, Plays { run := sampleRun, tool := "lame" } sampleEvents p ∧
      Plugin.PassesAll sampleRun.before [⟨3, [1]⟩, ⟨5, []⟩, ⟨8, [2]⟩] outs p.run.before ∧
      p.input ++ [2] = (outs.map Frame.data).flatten ∧ p.run.progress.lastDone = some 5 ∧
      Plugin.PassesAll sampleRun.after [⟨1, [9]⟩] images p.run.after ∧
      Sink.Takes sampleRun.sink images p.run.sink ∧ (p.step .outputClosed).2 = .done false := by
  have hplays : Plays { run := sampleRun, tool := "lame" } sampleEvents _ :=
    .step (.step (.step (.step (.step (.step (.step .start rfl rfl) rfl rfl) rfl rfl) rfl rfl)
      rfl rfl) rfl rfl) rfl rfl
  obtain ⟨outs, images, fed, drawn, hinput, hdone, _⟩ :=
    plays_in_order sampleRun "lame" rfl sampleEvents _ hplays
  refine ⟨_, outs, images, hplays, fed.passes, hinput, fed.lastDone_eq, drawn.passes,
    drawn.takes, ?_⟩
  rw [hdone]
  simp [sampleEvents]

end Pump

end Transcode
