import Transcode.Proofs.DivxLimits
/-!
# Options that are refused

A plugin that refuses its options should be as it was. This is observed in its later answers
(`Plugin.answers`). The DivX encoder takes the switch for the bare stream before it looks at the
limit, so it alone can be left with one of two options taken (`Builtin.TurnsBare`); all other
instances are as they were, in their state and in their answers
(`Builtin.refused_leaves_unchanged_iff`).
-/

set_option autoImplicit false

namespace Transcode

/-! ## Answers -/

/-- A use of an instance that is configured. -/
inductive PluginUse where
  | process (frame : Frame)
  | invocation
  | finish

/-- The answer of an instance to a use. -/
inductive PluginAnswer where
  | processed (result : Except Error Frame) (lines : List LogLine)
  | invoked (call : Option Invocation)
  | finished (result : Except Error Unit) (lines : List LogLine)

/-- The answers of an instance to a list of uses. -/
def Plugin.answers {σ : Type} [Plugin σ] (s : σ) : List PluginUse → List PluginAnswer
  | [] => []
  | .process frame :: rest =>
      let turn := process frame s
      .processed turn.result turn.lines :: answers turn.state rest
  | .invocation :: rest => .invoked (invocation s) :: answers s rest
  | .finish :: rest =>
      let turn := finish s
      .finished turn.result turn.lines :: answers turn.state rest

namespace Divx.Encoder

variable {s : Encoder} {options : OptionTable} {e : Error}

/-- An encoder that refuses its options is as it was, or was turned to the bare stream. -/
theorem state_of_refused (refused : (s.configure options).result = .error e) :
    (s.configure options).state = s ∧ ¬ (s.raw = false ∧ options.IsOn "raw") ∨
      (s.raw = false ∧ options.IsOn "raw") ∧
        (s.configure options).state = { s with raw := true } := by
  rcases configure_cases options s with ⟨fault, hflag, hturn⟩ |
    ⟨on, hflag, ⟨fault, hturn⟩ | ⟨limit, -, htaken, -⟩⟩
  · -- the switch cannot be read, so it is not on
    left
    rw [hturn]
    refine ⟨rfl, ?_⟩
    rintro ⟨-, hon⟩
    cases hflag.symm.trans (OptionTable.flag_eq_ok_true_iff.2 hon)
  · rw [hturn, ← OptionTable.flag_eq_ok_true_iff, hflag]
    obtain ⟨descriptor, raw, maxFrameSize, frames, bytes⟩ := s
    cases raw with
    | true => simp
    | false => cases on <;> simp
  · cases refused.symm.trans htaken

/-- The empty frame is answered in two ways: bare it has no bytes, in a chunk it has those of the
header. -/
theorem encode_empty_ne (wrapped : s.raw = false) :
    (s.encode ⟨1, []⟩).result ≠ (encode ⟨1, []⟩ { s with raw := true }).result := by
  have hbare : (encode ⟨1, []⟩ { s with raw := true }).result = .ok ⟨1, []⟩ := by
    simp [encode, Frame.size]
  have hchunk : (s.encode ⟨1, []⟩).result = .ok ⟨1, Chunk.packed .video []⟩ := by
    simp [encode, Frame.size, wrapped, Chunk.wrap_eq_packed, Except.map, Frame.withData]
  rw [hbare, hchunk]
  decide

end Divx.Encoder

/-- All options are read before the first one is taken. -/
theorem Vorbis.Encoder.state_of_refused {s : Encoder} {options : OptionTable} {e : Error}
    (refused : (s.configure options).result = .error e) : (s.configure options).state = s := by
  unfold configure at refused ⊢
  split at refused
  · rfl
  · cases refused

namespace Builtin

open Plugin (after answers)

variable {s : Builtin} {options : OptionTable} {e : Error}

/-- The options turn a DivX encoder that writes chunks to the bare stream. -/
def TurnsBare (options : OptionTable) : Builtin → Prop
  | .divxEncoder encoder => encoder.raw = false ∧ options.IsOn "raw"
  | _ => False

/-- An instance that refuses its options is as it was, unless they turn it to the bare stream. -/
theorem state_of_refused (refused : (Plugin.configure options s).result = .error e) :
    (Plugin.configure options s).state = s ∧ ¬ s.TurnsBare options ∨
      ∃ encoder, s = .divxEncoder encoder ∧ s.TurnsBare options ∧
        (Plugin.configure options s).state = .divxEncoder { encoder with raw := true } := by
  cases s with
  | divxEncoder encoder =>
      rcases Divx.Encoder.state_of_refused refused with ⟨hstate, hkept⟩ | ⟨hturned, hstate⟩
      · exact .inl ⟨congrArg divxEncoder hstate, hkept⟩
      · exact .inr ⟨encoder, rfl, hturned, congrArg divxEncoder hstate⟩
  | vorbisEncoder encoder =>
      exact .inl ⟨congrArg vorbisEncoder (Vorbis.Encoder.state_of_refused refused), id⟩
  | passthrough _ | discard _ | divxDecoder _ | vorbisDecoder _ => cases refused

/-- An encoder that was turned to the bare stream answers the empty frame differently. -/
theorem answers_ne_of_bare {encoder : Divx.Encoder} (kind : encoder.descriptor.kind = .encoder)
    (wrapped : encoder.raw = false) :
    answers (divxEncoder { encoder with raw := true }) [.process ⟨1, []⟩] ≠
      answers (divxEncoder encoder) [.process ⟨1, []⟩] := by
  have hkind : ({ encoder with raw := true } : Divx.Encoder).descriptor.kind = .encoder := kind
  intro hsame
  simp only [answers, List.cons.injEq, PluginAnswer.processed.injEq, and_true] at hsame
  rw [Divx.process_encoder kind, Divx.process_encoder hkind] at hsame
  exact Divx.Encoder.encode_empty_ne wrapped hsame.1.symm

theorem works_of_mem {fresh : Builtin} (listed : fresh ∈ decoders ++ encoders) : fresh.Works := by
  simp only [decoders, encoders, List.cons_append, List.nil_append, List.mem_cons, List.not_mem_nil,
    or_false] at listed
  rcases listed with rfl | rfl | rfl | rfl | rfl | rfl | rfl | rfl | rfl | rfl <;> trivial

/-- **A plugin that refuses its options is as it was, except for the switch to the bare stream.** In
whatever state the calls before have left an instance: if it refuses options, it is unchanged, and
answers all later uses as if it had not been asked, if and only if these options do not turn a DivX
encoder from chunks to the bare stream. If they do, that is the one thing that is changed. -/
theorem refused_leaves_unchanged_iff {fresh : Builtin} (listed : fresh ∈ decoders ++ encoders)
    (calls : List PluginCall) (options : OptionTable) (e : Error)
    (refused : (Plugin.configure options (after fresh calls)).result = .error e) :
    ((Plugin.configure options (after fresh calls)).state = after fresh calls ↔
      ¬ (after fresh calls).TurnsBare options) ∧
    ((∀ uses, answers (Plugin.configure options (after fresh calls)).state uses =
        answers (after fresh calls) uses) ↔
      ¬ (after fresh calls).TurnsBare options) ∧
    ((after fresh calls).TurnsBare options →
      ∃ encoder, after fresh calls = .divxEncoder encoder ∧
        (Plugin.configure options (after fresh calls)).state =
          .divxEncoder { encoder with raw := true }) := by
  have hworks := (works_of_mem listed).after calls
  generalize after fresh calls = s at *
  rcases state_of_refused refused with ⟨hstate, hkept⟩ | ⟨encoder, rfl, hturned, hstate⟩
  · rw [hstate]
    exact ⟨iff_of_true rfl hkept, iff_of_true (fun _ => rfl) hkept,
      fun hturned => absurd hturned hkept⟩
  · have hdiffers := answers_ne_of_bare hworks hturned.1
    rw [hstate]
    refine ⟨iff_of_false ?_ (not_not_intro hturned), iff_of_false ?_ (not_not_intro hturned),
      fun _ => ⟨encoder, rfl, rfl⟩⟩
    · intro hsame
      exact hdiffers (by rw [hsame])
    · intro hsame
      exact hdiffers (hsame _)

theorem refused_leaves_unchanged_iff_rate :
    vorbisEncoder {} ∈ decoders ++ encoders ∧
      (Plugin.configure { entries := [("channels", "3"), ("rate", "10")] }
          (after (vorbisEncoder {}) [.process ⟨1, [1, 2, 3, 4]⟩])).result =
        .error (.configuration (.unsupportedRate 10)) ∧
      ∀ uses, answers (Plugin.configure { entries := [("channels", "3"), ("rate", "10")] }
          (after (vorbisEncoder {}) [.process ⟨1, [1, 2, 3, 4]⟩])).state uses =
        answers (after (vorbisEncoder {}) [.process ⟨1, [1, 2, 3, 4]⟩]) uses := by
  have hlisted : vorbisEncoder {} ∈ decoders ++ encoders := by decide +kernel
  have hrefused : (Plugin.configure { entries := [("channels", "3"), ("rate", "10")] }
      (after (vorbisEncoder {}) [.process ⟨1, [1, 2, 3, 4]⟩])).result =
        .error (.configuration (.unsupportedRate 10)) := rfl
  exact ⟨hlisted, hrefused, (refused_leaves_unchanged_iff hlisted _ _ _ hrefused).2.1.2 id⟩

/-- A limit of no bytes is refused, but the switch beside it is taken: the next frame is written
bare. -/
theorem switch_taken_from_refused_options :
    (Plugin.configure { entries := [("max_frame_size", "0"), ("raw", "true")] }
      (divxEncoder .wrapped)).result =
        .error (.configuration (.zeroOption "max_frame_size")) ∧
      answers (Plugin.configure { entries := [("max_frame_size", "0"), ("raw", "true")] }
          (divxEncoder .wrapped)).state [.process ⟨1, [1, 2]⟩] =
        [.processed (.ok ⟨1, [1, 2]⟩) []] ∧
      answers (divxEncoder .wrapped) [.process ⟨1, [1, 2]⟩] =
        [.processed (.ok ⟨1, [0x30, 0x30, 0x64, 0x63, 2, 0, 0, 0, 1, 2]⟩) []] :=
  ⟨rfl, rfl, rfl⟩

end Builtin

end Transcode
