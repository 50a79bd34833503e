import Mathlib.Algebra.GroupWithZero.Nat
import Transcode.Proofs.DivxRoundTrip
import Transcode.Proofs.PluginCalls
/-!
# The limit of the DivX encoder

`Divx.Encoder.configure_cases` is the case distinction for configuring a DivX encoder, and
`Divx.Encoder.encode_of_le` and `Divx.Encoder.encode_of_lt` are that for encoding a frame. The limit
of a frame is at any time one that the size field of a chunk can hold (`Divx.Encoder.Sound`), so a
frame within the limit is never refused by the chunk, and the counts are those of the frames that
were taken (`Plugin.takenBy`).
-/

set_option autoImplicit false

namespace Transcode

namespace Plugin

variable {σ : Type} [Plugin σ]

/-- The frame that a call hands to an instance, if the instance takes it. -/
def taken (s : σ) : PluginCall → List Frame
  | .process frame => if (process frame s).result.isOk then [frame] else []
  | _ => []

/-- The frames accepted along a list of calls. -/
def takenBy (s : σ) : List PluginCall → List Frame
  | [] => []
  | c :: rest => taken s c ++ takenBy (call s c) rest

end Plugin

/-- A number that is read is below the limit. -/
theorem OptionTable.lt_of_getBelow {limit n : Nat} {options : OptionTable} {name : String}
    (read : options.getBelow limit name = .ok (some n)) : n < limit := by
  rcases options.getBelow_cases limit name with ⟨-, hread⟩ | ⟨_, _, -, -, hlimit, hread⟩ |
    ⟨_, -, -, hread⟩
  · cases read.symm.trans hread
  · cases read.symm.trans hread
    exact hlimit
  · cases read.symm.trans hread

namespace Divx.Encoder

open Plugin (call after taken takenBy)

variable {s : Encoder} {frame : Frame}

/-! ## The effect of calls -/

/-- All that configuring can do: the switch is not read, or it is read and the limit is refused, or
both are taken. -/
theorem configure_cases (options : OptionTable) (s : Encoder) :
    (∃ e, options.flag "raw" = .error e ∧
      s.configure options = { result := .error e, state := s }) ∨
    ∃ on, options.flag "raw" = .ok on ∧
      ((∃ e, s.configure options =
          { result := .error e, state := { s with raw := s.raw || on } }) ∨
        ∃ limit, (limit = s.maxFrameSize ∨ 0 < limit ∧ limit < UInt32.size) ∧
          (s.configure options).result = .ok () ∧
          (s.configure options).state = { s with raw := s.raw || on, maxFrameSize := limit }) := by
  unfold configure
  cases hflag : options.flag "raw" with
  | error e => exact .inl ⟨e, rfl, rfl⟩
  | ok on =>
      refine .inr ⟨on, rfl, ?_⟩
      cases hlimit : options.getWord32 maxFrameSizeOption with
      | error e => exact .inl ⟨e, rfl⟩
      | ok limit =>
          match limit with
          | none => exact .inr ⟨s.maxFrameSize, .inl rfl, rfl, rfl⟩
          | some 0 => exact .inl ⟨_, rfl⟩
          | some (n + 1) =>
              exact .inr ⟨n + 1, .inr ⟨Nat.succ_pos n, OptionTable.lt_of_getBelow hlimit⟩, rfl, rfl⟩

/-- Configuring touches nothing but the switch and the limit, whether it succeeds or not. -/
theorem exists_configure_state (options : OptionTable) (s : Encoder) :
    ∃ raw limit, (limit = s.maxFrameSize ∨ 0 < limit ∧ limit < UInt32.size) ∧
      (s.configure options).state = { s with raw, maxFrameSize := limit } := by
  rcases configure_cases options s with ⟨e, -, hturn⟩ |
    ⟨on, -, ⟨e, hturn⟩ | ⟨limit, hlimit, -, hstate⟩⟩
  · exact ⟨s.raw, s.maxFrameSize, .inl rfl, congrArg Turn.state hturn⟩
  · exact ⟨s.raw || on, s.maxFrameSize, .inl rfl, congrArg Turn.state hturn⟩
  · exact ⟨s.raw || on, limit, hlimit, hstate⟩

/-! ## The invariant -/

/-- Invariant of an encoder. -/
structure Sound (s : Encoder) : Prop where
  kind : s.descriptor.kind = .encoder
  positive : 1 ≤ s.maxFrameSize
  chunked : s.maxFrameSize < UInt32.size

theorem Sound.process_eq (sound : s.Sound) (frame : Frame) :
    Plugin.process frame s = s.encode frame := by
  have hkind : (Plugin.descriptor s).kind = .encoder := sound.kind
  rw [Plugin.process, hkind]
  rfl

/-- A frame is within the limit, and then written and counted, or it is beyond the limit and
refused. -/
theorem Sound.encode_cases (sound : s.Sound) (frame : Frame) :
    (frame.size ≤ s.maxFrameSize ∧ s.encode frame =
      { result := .ok (frame.withData (s.output frame.data))
        state := { s with frames := s.frames + 1, bytes := s.bytes + frame.size } }) ∨
    (s.maxFrameSize < frame.size ∧ s.encode frame =
      { result := .error (.invalidData (.frameTooLarge frame.sequence frame.size s.maxFrameSize))
        state := s }) := by
  rcases Nat.lt_or_ge s.maxFrameSize frame.size with hbeyond | hwithin
  · exact .inr ⟨hbeyond, encode_of_lt hbeyond⟩
  · exact .inl ⟨hwithin, encode_of_le sound.chunked hwithin⟩

/-- A call preserves soundness, with its effect on the counts. -/
theorem Sound.call (sound : s.Sound) (c : PluginCall) :
    (call s c).Sound ∧ (call s c).frames = s.frames + (taken s c).length ∧
      (call s c).bytes = s.bytes + ((taken s c).map Frame.size).sum := by
  cases c with
  | configure options =>
      obtain ⟨raw, limit, hlimit, hstate⟩ := exists_configure_state options s
      have hcall : Plugin.call s (.configure options) = { s with raw, maxFrameSize := limit } :=
        hstate
      rw [hcall]
      refine ⟨?_, rfl, rfl⟩
      -- the limit is the one before, or was read from the options
      rcases hlimit with rfl | ⟨hpositive, hword⟩
      · exact ⟨sound.kind, sound.positive, sound.chunked⟩
      · exact ⟨sound.kind, hpositive, hword⟩
  | process frame =>
      rw [Plugin.call, taken, sound.process_eq]
      rcases sound.encode_cases frame with ⟨-, hturn⟩ | ⟨-, hturn⟩
      · rw [hturn]
        exact ⟨⟨sound.kind, sound.positive, sound.chunked⟩, rfl, rfl⟩
      · rw [hturn]
        exact ⟨sound, rfl, rfl⟩
  | finish => exact ⟨sound, rfl, rfl⟩

/-- A list of calls preserves soundness, with its effect on the counts. -/
theorem Sound.after (sound : s.Sound) (calls : List PluginCall) :
    (after s calls).Sound ∧ (after s calls).frames = s.frames + (takenBy s calls).length ∧
      (after s calls).bytes = s.bytes + ((takenBy s calls).map Frame.size).sum := by
  induction calls generalizing s with
  | nil => exact ⟨sound, rfl, rfl⟩
  | cons c rest ih =>
      obtain ⟨hsound, hframes, hbytes⟩ := sound.call c
      obtain ⟨hafter, hframes', hbytes'⟩ := ih hsound
      refine ⟨hafter, ?_, ?_⟩
      · rw [takenBy, List.length_append, ← Nat.add_assoc, ← hframes]
        exact hframes'
      · rw [takenBy, List.map_append, List.sum_append, ← Nat.add_assoc, ← hbytes]
        exact hbytes'

theorem sound_of_mem {fresh : Encoder} (listed : Builtin.divxEncoder fresh ∈ Builtin.encoders) :
    fresh.Sound ∧ fresh.frames = 0 ∧ fresh.bytes = 0 := by
  simp only [Builtin.encoders, List.mem_cons, Builtin.divxEncoder.injEq, List.not_mem_nil,
    reduceCtorEq, false_or, or_false] at listed
  rcases listed with rfl | rfl
  · exact ⟨⟨rfl, by decide, by decide⟩, rfl, rfl⟩
  · exact ⟨⟨rfl, by decide, by decide⟩, rfl, rfl⟩

/-- An encoder is called in the same way, whether as a built-in plugin or as itself. -/
theorem call_divxEncoder (s : Encoder) (c : PluginCall) :
    call (Builtin.divxEncoder s) c = .divxEncoder (call s c) := by
  cases c with
  | configure options => rfl
  | process frame =>
      have hkind : Plugin.descriptor (Builtin.divxEncoder s) = Plugin.descriptor s := rfl
      rw [Plugin.call, Plugin.call, Plugin.process, Plugin.process, hkind]
      split <;> rfl
  | finish => rfl

theorem after_divxEncoder (s : Encoder) (calls : List PluginCall) :
    after (Builtin.divxEncoder s) calls = .divxEncoder (after s calls) := by
  induction calls generalizing s with
  | nil => rfl
  | cons c rest ih =>
      have hfirst := ih (call s c)
      rwa [← call_divxEncoder] at hfirst

theorem descriptor_after (s : Encoder) (calls : List PluginCall) :
    (after s calls).descriptor = s.descriptor := by
  have hkept := Builtin.descriptor_after (.divxEncoder s) calls
  rwa [after_divxEncoder] at hkept

/-! ## Accepted frames and reports -/

/-- Behaviour of an encoder under its limit. -/
structure WithinLimit (s : Encoder) : Prop where
  /-- The limit is a size that a chunk can have. -/
  limit : 1 ≤ s.maxFrameSize ∧ s.maxFrameSize ≤ 4294967295
  /-- The frames within the limit are taken, and no others. -/
  takes : ∀ frame, (∃ out, (Plugin.encode frame s).result = .ok out) ↔ frame.size ≤ s.maxFrameSize
  /-- A frame keeps its number, and its data are written bare or as a chunk. The decoder gets it
  back from the chunk. -/
  writes : ∀ frame out, (Plugin.encode frame s).result = .ok out →
    out.sequence = frame.sequence ∧ (s.raw = true → out.data = frame.data) ∧
      (s.raw = false → Chunk.wrap .video frame.data = .ok out.data ∧
        ∀ decoder : Decoder, (Plugin.decode out decoder).result = .ok frame)
  /-- A frame is refused for its size only, and that leaves nothing behind. -/
  refuses : ∀ frame e, (Plugin.encode frame s).result = .error e →
    e = .invalidData (.frameTooLarge frame.sequence frame.size s.maxFrameSize) ∧
      (Plugin.encode frame s).state = s

/-- The output for a frame that fits into a chunk. -/
theorem output_cases (word : frame.data.length < UInt32.size) :
    (s.raw = true → s.output frame.data = frame.data) ∧
      (s.raw = false → Chunk.wrap .video frame.data = .ok (s.output frame.data) ∧
        Chunk.unwrap .video (s.output frame.data) = .ok frame.data) := by
  constructor
  · intro hraw
    rw [output, if_pos hraw]
  · intro hwrapped
    rw [output, hwrapped, if_neg Bool.false_ne_true]
    exact ⟨Chunk.wrap_eq_packed word, Chunk.unwrap_packed word⟩

theorem Sound.withinLimit (sound : s.Sound) : s.WithinLimit := by
  constructor
  · exact ⟨sound.positive, Nat.le_of_lt_succ sound.chunked⟩
  · intro frame
    rcases sound.encode_cases frame with ⟨hwithin, hturn⟩ | ⟨hbeyond, hturn⟩
    · exact iff_of_true ⟨_, congrArg Turn.result hturn⟩ hwithin
    · refine iff_of_false ?_ (Nat.not_le.2 hbeyond)
      rintro ⟨out, htaken⟩
      cases htaken.symm.trans (congrArg Turn.result hturn)
  · intro frame out htaken
    rcases sound.encode_cases frame with ⟨hwithin, hturn⟩ | ⟨-, hturn⟩
    · cases htaken.symm.trans (congrArg Turn.result hturn)
      obtain ⟨hbare, hchunk⟩ := output_cases (s := s) (Nat.lt_of_le_of_lt hwithin sound.chunked)
      refine ⟨rfl, hbare, fun hwrapped => ⟨(hchunk hwrapped).1, fun decoder => ?_⟩⟩
      -- the decoder puts the payload of the chunk into the frame it came in
      exact congrArg (Except.map (frame.withData (s.output frame.data)).withData)
        (hchunk hwrapped).2
    · cases htaken.symm.trans (congrArg Turn.result hturn)
  · intro frame e hrefused
    rcases sound.encode_cases frame with ⟨-, hturn⟩ | ⟨-, hturn⟩
    · cases hrefused.symm.trans (congrArg Turn.result hturn)
    · cases hrefused.symm.trans (congrArg Turn.result hturn)
      exact ⟨rfl, congrArg Turn.state hturn⟩

/-- The line that reports frames and their bytes. -/
def report (name : String) (frames : List Frame) : LogLine :=
  ⟨.info, s!"{name}: 编码 {frames.length} 帧, 码流 {(frames.map Frame.size).sum} 字节"⟩

/-- **A DivX encoder takes the frames within its limit, and counts them.** This holds however it was
configured and whatever it was handed, with or without success: what it reports in the end are the
frames that were taken. -/
theorem encodes_within_limit {fresh : Encoder}
    (listed : Builtin.divxEncoder fresh ∈ Builtin.encoders)
    (calls : List PluginCall) :
    (after fresh calls).WithinLimit ∧
      (Plugin.finish (after fresh calls)).lines =
        [report fresh.descriptor.name (takenBy fresh calls)] := by
  obtain ⟨hfresh, hframes, hbytes⟩ := sound_of_mem listed
  obtain ⟨hsound, hframes', hbytes'⟩ := hfresh.after calls
  rw [hframes, Nat.zero_add] at hframes'
  rw [hbytes, Nat.zero_add] at hbytes'
  refine ⟨hsound.withinLimit, ?_⟩
  rw [report, ← hframes', ← hbytes', ← descriptor_after fresh calls]
  rfl

/-- The limit is lowered to two bytes, a limit of none is refused, and of two frames one is too
large. -/
def loweredCalls : List PluginCall :=
  [.configure { entries := [("max_frame_size", "2")] },
    .configure { entries := [("max_frame_size", "0")] },
    .process ⟨1, [7, 8]⟩, .process ⟨2, [7, 8, 9]⟩]

theorem encodes_within_limit_lowered :
    Builtin.divxEncoder wrapped ∈ Builtin.encoders ∧ (after wrapped loweredCalls).maxFrameSize = 2 ∧
      (after wrapped loweredCalls).WithinLimit ∧
      (Plugin.finish (after wrapped loweredCalls)).lines =
        [⟨.info, "divx4: 编码 1 帧, 码流 2 字节"⟩] := by
  have hlisted : Builtin.divxEncoder wrapped ∈ Builtin.encoders := by decide +kernel
  have htaken : takenBy wrapped loweredCalls = [⟨1, [7, 8]⟩] := by decide +kernel
  obtain ⟨hwithin, hreport⟩ := encodes_within_limit hlisted loweredCalls
  rw [htaken] at hreport
  exact ⟨hlisted, by decide +kernel, hwithin, hreport.trans (by decide +kernel)⟩

end Divx.Encoder

end Transcode
