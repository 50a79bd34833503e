import Transcode.Run
/-!
# Frames on their way

The effect of plugins and sinks on frames, as relations. `Plugin.Passes` takes one frame through a
list of plugins, `Plugin.PassesAll` a list of frames, with the states of the plugins carried from
frame to frame. `Sink.Takes` writes frames to a sink.
-/

set_option autoImplicit false

namespace Transcode

@[simp] theorem mapError_ok {ε ε' α : Type} (f : ε → ε') (a : α) :
    (Except.ok a : Except ε α).mapError f = .ok a := rfl

@[simp] theorem mapError_error {ε ε' α : Type} (f : ε → ε') (e : ε) :
    (Except.error e : Except ε α).mapError f = .error (f e) := rfl

namespace Plugin

variable {σ : Type} [Plugin σ]

/-- Passage of a frame through a list of plugins: each takes the image under the one in front of it
and is left in a new state. The last argument records whether cancellation was requested. -/
inductive Passes : Frame → List σ → Frame → List σ → Bool → Prop where
  | done (frame : Frame) : Passes frame [] frame [] false
  | next {frame middle image : Frame} {p : σ} {rest rest' : List σ} {asked : Bool}
      (made : (process frame p).result = .ok middle)
      (passes : Passes middle rest image rest' asked) :
      Passes frame (p :: rest) image ((process frame p).state :: rest')
        ((process frame p).cancels || asked)

/-- Refusal of a frame, or of its image under the plugins in front, by one of the plugins. -/
inductive Refuses : Frame → List σ → Error → Prop where
  | here {frame : Frame} {p : σ} {rest : List σ} {e : Error}
      (refused : (process frame p).result = .error e) : Refuses frame (p :: rest) e
  | behind {frame middle : Frame} {p : σ} {rest : List σ} {e : Error}
      (made : (process frame p).result = .ok middle) (refuses : Refuses middle rest e) :
      Refuses frame (p :: rest) e

/-- Passage of a list of frames through a list of plugins. -/
inductive PassesAll : List σ → List Frame → List Frame → List σ → Prop where
  | nil (plugins : List σ) : PassesAll plugins [] [] plugins
  | cons {plugins plugins' last : List σ} {frame image : Frame} {frames images : List Frame}
      {asked : Bool} (first : Passes frame plugins image plugins' asked)
      (rest : PassesAll plugins' frames images last) :
      PassesAll plugins (frame :: frames) (image :: images) last

/-- A successful processing is a passage. -/
theorem passes_of_processAll {frame image : Frame} {plugins : List σ}
    (h : (processAll frame plugins).result = .ok image) :
    Passes frame plugins image (processAll frame plugins).state
      (processAll frame plugins).cancels := by
  induction plugins generalizing frame with
  | nil =>
      cases h
      exact .done image
  | cons p rest ih =>
      cases hmade : (process frame p).result with
      | error e => simp [processAll, hmade] at h
      | ok middle =>
          simp only [processAll, hmade] at h ⊢
          exact .next hmade (ih h)

/-- A failed processing is a refusal. -/
theorem refuses_of_processAll {frame : Frame} {plugins : List σ} {e : Error}
    (h : (processAll frame plugins).result = .error e) : Refuses frame plugins e := by
  induction plugins generalizing frame with
  | nil => cases h
  | cons p rest ih =>
      cases hmade : (process frame p).result with
      | error cause =>
          simp only [processAll, hmade, Except.error.injEq] at h
          subst h
          exact .here hmade
      | ok middle =>
          simp only [processAll, hmade] at h
          exact .behind hmade (ih h)

theorem Passes.processAll_eq {frame image : Frame} {plugins plugins' : List σ} {asked : Bool}
    (h : Passes frame plugins image plugins' asked) :
    (processAll frame plugins).result = .ok image ∧
      (processAll frame plugins).state = plugins' ∧
      (processAll frame plugins).cancels = asked := by
  induction h with
  | done frame => exact ⟨rfl, rfl, rfl⟩
  | next made _ ih =>
      obtain ⟨hresult, hstate, hcancels⟩ := ih
      simp only [processAll, made]
      exact ⟨hresult, by rw [hstate], by rw [hcancels]⟩

theorem Refuses.processAll_eq {frame : Frame} {plugins : List σ} {e : Error}
    (h : Refuses frame plugins e) : (processAll frame plugins).result = .error e := by
  induction h with
  | here refused => simp only [processAll, refused]
  | behind made _ ih => simp only [processAll, made, ih]

/-- Determinism of passage for one frame. -/
theorem Passes.unique {frame image image' : Frame} {plugins last last' : List σ}
    {asked asked' : Bool} (h : Passes frame plugins image last asked)
    (h' : Passes frame plugins image' last' asked') :
    image = image' ∧ last = last' ∧ asked = asked' := by
  obtain ⟨hresult, rfl, rfl⟩ := h.processAll_eq
  obtain ⟨hresult', rfl, rfl⟩ := h'.processAll_eq
  rw [hresult, Except.ok.injEq] at hresult'
  exact ⟨hresult', rfl, rfl⟩

/-- Passage and refusal exclude each other. -/
theorem Passes.not_refuses {frame image : Frame} {plugins last : List σ} {asked : Bool} {e : Error}
    (h : Passes frame plugins image last asked) : ¬Refuses frame plugins e := by
  intro refuses
  have refused := refuses.processAll_eq
  rw [h.processAll_eq.1] at refused
  cases refused

/-- One more frame passes behind the others. -/
theorem PassesAll.snoc {plugins middle last : List σ} {frames images : List Frame}
    {frame image : Frame} {asked : Bool} (h : PassesAll plugins frames images middle)
    (passes : Passes frame middle image last asked) :
    PassesAll plugins (frames ++ [frame]) (images ++ [image]) last := by
  induction h with
  | nil => exact .cons passes (.nil last)
  | cons first _ ih => exact .cons first (ih passes)

/-- Determinism of passage for a list of frames. -/
theorem PassesAll.unique {plugins last last' : List σ} {frames images images' : List Frame}
    (h : PassesAll plugins frames images last) (h' : PassesAll plugins frames images' last') :
    images = images' ∧ last = last' := by
  induction h generalizing images' with
  | nil =>
      cases h'
      exact ⟨rfl, rfl⟩
  | cons first _ ih =>
      cases h' with
      | cons first' rest' =>
          obtain ⟨rfl, rfl, _⟩ := first.unique first'
          obtain ⟨rfl, rfl⟩ := ih rest'
          exact ⟨rfl, rfl⟩

/-- Every frame becomes one frame. -/
theorem PassesAll.length_eq {plugins last : List σ} {frames images : List Frame}
    (h : PassesAll plugins frames images last) : frames.length = images.length := by
  induction h with
  | nil => rfl
  | cons _ _ ih => rw [List.length_cons, List.length_cons, ih]

end Plugin

namespace Sink

variable {τ : Type} [Sink τ]

/-- Acceptance of a list of frames by a sink. -/
inductive Takes : τ → List Frame → τ → Prop where
  | nil (s : τ) : Takes s [] s
  | cons {s last : τ} {frame : Frame} {frames : List Frame}
      (taken : (write frame s).result = .ok ()) (rest : Takes (write frame s).state frames last) :
      Takes s (frame :: frames) last

/-- Acceptance of concatenated lists of frames. -/
theorem Takes.append {s middle last : τ} {frames frames' : List Frame}
    (h : Takes s frames middle) (h' : Takes middle frames' last) :
    Takes s (frames ++ frames') last := by
  induction h with
  | nil => exact h'
  | cons taken _ ih => exact .cons taken (ih h')

/-- One more frame is taken behind the others. -/
theorem Takes.snoc {s middle : τ} {frames : List Frame} {frame : Frame}
    (h : Takes s frames middle) (taken : (write frame middle).result = .ok ()) :
    Takes s (frames ++ [frame]) (write frame middle).state :=
  h.append (.cons taken (.nil _))

end Sink

namespace Progress

/-- A message is refused where it is a failure or its number is not above the last one taken. -/
theorem accept_eq (p : Progress) (message : Except Error Frame) :
    (∃ e, message = .error e ∧ p.accept message = .error (e.toJobFailure p.lastDone)) ∨
    (∃ frame previous, message = .ok frame ∧ p.lastIn = some previous ∧
      frame.sequence ≤ previous ∧
      p.accept message =
        .error (.pipeline (.outOfOrder previous frame.sequence) p.lastDone)) ∨
    (∃ frame, message = .ok frame ∧
      (∀ previous, p.lastIn = some previous → previous < frame.sequence) ∧
      p.accept message = .ok (frame,
        { p with framesIn := p.framesIn + 1, lastIn := some frame.sequence })) := by
  cases message with
  | error e => exact .inl ⟨e, rfl, rfl⟩
  | ok frame =>
      cases hlast : p.lastIn with
      | none => exact .inr (.inr ⟨frame, rfl, by simp, by simp [accept, hlast]⟩)
      | some previous =>
          by_cases above : previous < frame.sequence
          · refine .inr (.inr ⟨frame, rfl, ?_, ?_⟩)
            · rintro _ ⟨⟩
              exact above
            · simp [accept, hlast, Nat.not_le.2 above]
          · have notAbove : frame.sequence ≤ previous := Nat.not_lt.1 above
            exact .inr
              (.inl ⟨frame, previous, rfl, rfl, notAbove, by simp [accept, hlast, notAbove]⟩)

end Progress

/-- The end of the frames does not reach the sink. -/
theorem Run.finish_sink {σ τ : Type} [Plugin σ] (run : Run σ τ) : run.finish.1.sink = run.sink := by
  simp only [finish]
  split <;> rfl

end Transcode
