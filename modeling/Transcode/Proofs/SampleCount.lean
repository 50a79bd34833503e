import Mathlib.Algebra.GroupWithZero.Nat
import Transcode.Proofs.FixedFrames
import Transcode.Proofs.PluginCalls
/-!
# Samples that are sent to the tool

The shapes that options can give have at least one byte for each sample
(`Vorbis.Samples.IsSupported`). The encoder counts the samples of each frame on its own, so of a
sample that two frames share neither part is counted: the bytes that frames have beyond whole
samples are `Vorbis.loose`. All samples of a stream are reported if and only if these bytes are
fewer than a sample, and two ways to cut a stream differ in nothing else
(`Vorbis.Encoder.reports_whole_samples`).
-/

set_option autoImplicit false

namespace Transcode

/-- A sum of weights over the pieces of a file, by their sizes: full pieces, and the rest. -/
theorem Splitting.sum_pieces {size : Nat} (positive : 0 < size) (bytes : Bytes) (weight : Nat → Nat)
    (nothing : weight 0 = 0) :
    ((pieces size bytes).map fun piece => weight piece.length).sum =
      bytes.length / size * weight size + weight (bytes.length % size) := by
  induction bytes using pieces_induction positive with
  | nil => simp [pieces_nil positive, nothing]
  | cons bytes begun ih =>
      rw [pieces_cons positive begun, List.map_cons, List.sum_cons, ih, List.length_take,
        List.length_drop]
      rcases Nat.lt_or_ge bytes.length size with hshort | hlong
      · -- the first piece is the rest
        have hnone : bytes.length - size = 0 := by omega
        simp [hnone, Nat.min_eq_right (Nat.le_of_lt hshort), Nat.div_eq_of_lt hshort,
          Nat.mod_eq_of_lt hshort, nothing]
      · rw [Nat.min_eq_left hlong, Nat.div_eq_sub_div positive hlong, Nat.mod_eq_sub_mod hlong,
          Nat.succ_mul]
        omega

namespace Vorbis

/-! ## Shapes -/

namespace Samples

variable {options : OptionTable} {samples : Samples}

/-- A shape that the tool is called with. -/
structure IsSupported (samples : Samples) : Prop where
  rate : 1000 ≤ samples.rate ∧ samples.rate ≤ 192000
  channels : 1 ≤ samples.channels ∧ samples.channels ≤ 8
  bits : samples.bits = 8 ∨ samples.bits = 16

/-- A number that is accepted satisfies the condition, as the default does. -/
theorem fits_of_number {name : String} {fallback n : Nat} {fits : Nat → Bool}
    {fault : Nat → ConfigurationFault} (default_fits : fits fallback = true)
    (accepted : number options name fallback fits fault = .ok n) : fits n = true := by
  unfold number at accepted
  split at accepted
  · cases accepted
  · cases accepted
    exact default_fits
  · split at accepted
    · next hfits =>
        cases accepted
        exact hfits
    · cases accepted

theorem isSupported_of_ofOptions (accepted : ofOptions options = .ok samples) :
    samples.IsSupported := by
  unfold ofOptions at accepted
  obtain ⟨rate, hrate, accepted⟩ := ok_of_bind accepted
  obtain ⟨channels, hchannels, accepted⟩ := ok_of_bind accepted
  obtain ⟨bits, hbits, accepted⟩ := ok_of_bind accepted
  obtain ⟨quality, -, accepted⟩ := ok_of_bind accepted
  cases accepted
  have hrate := fits_of_number rfl hrate
  have hchannels := fits_of_number rfl hchannels
  have hbits := fits_of_number rfl hbits
  simp only [Bool.and_eq_true, decide_eq_true_eq] at hrate hchannels
  simp only [Bool.or_eq_true, beq_iff_eq] at hbits
  exact ⟨hrate, hchannels, hbits⟩

/-- A sample of all channels has from one to sixteen bytes. -/
theorem IsSupported.blockAlign_bounds (supported : samples.IsSupported) :
    1 ≤ samples.blockAlign ∧ samples.blockAlign ≤ 16 := by
  obtain ⟨-, hchannels, hbits | hbits⟩ := supported
  · rw [blockAlign, hbits]
    omega
  · rw [blockAlign, hbits]
    omega

end Samples

/-! ## Samples in frames -/

/-- The bytes that frames have beyond whole samples. -/
def loose (align : Nat) (frames : List Frame) : Nat :=
  (frames.map fun frame => frame.size % align).sum

/-- The bytes of all frames are those of the whole samples in each of them, and the loose ones. -/
theorem length_flatten_eq (align : Nat) (frames : List Frame) :
    (frames.map Frame.data).flatten.length =
      align * (frames.map fun frame => frame.size / align).sum + loose align frames := by
  induction frames with
  | nil => simp [loose]
  | cons frame rest ih =>
      have hframe : align * (frame.size / align) + frame.size % align = frame.data.length :=
        Nat.div_add_mod frame.data.length align
      unfold loose at ih ⊢
      simp only [List.map_cons, List.flatten_cons, List.length_append, List.sum_cons, Nat.mul_add]
      omega

/-- The samples of the stream are those that lie within a frame, and those that the loose bytes make
up. -/
theorem sum_div_add_loose {align : Nat} (positive : 0 < align) (frames : List Frame) :
    (frames.map fun frame => frame.size / align).sum + loose align frames / align =
      (frames.map Frame.data).flatten.length / align := by
  rw [length_flatten_eq align frames, Nat.mul_add_div positive]

theorem loose_pieces {size : Nat} (positive : 0 < size) (align start : Nat) (bytes : Bytes) :
    loose align (Frame.number start (Splitting.pieces size bytes)) =
      bytes.length / size * (size % align) + bytes.length % size % align := by
  have hsizes (frames : List Frame) : frames.map (fun frame => frame.size % align) =
      (frames.map Frame.data).map fun piece => piece.length % align := by
    rw [List.map_map]
    rfl
  rw [loose, hsizes, Frame.map_data_number]
  exact Splitting.sum_pieces positive bytes (· % align) (Nat.zero_mod align)

/-! ## The report -/

namespace Encoder

open Plugin (after)

variable {options : OptionTable} {samples : Samples} {count count' : Nat}

/-- An encoder that was configured and handed frames. -/
def sent (options : OptionTable) (frames : List Frame) : Encoder :=
  after {} (.configure options :: frames.map .process)

/-- Each frame adds the whole samples in it. -/
theorem after_process (s : Encoder) (frames : List Frame) :
    after s (frames.map .process) =
      { s with
        count := s.count + (frames.map fun frame => frame.size / s.samples.blockAlign).sum } := by
  induction frames generalizing s with
  | nil => rfl
  | cons frame rest ih =>
      have hrest := ih { s with count := s.count + frame.size / s.samples.blockAlign }
      simp only [List.map_cons, List.sum_cons, ← Nat.add_assoc]
      exact hrest

theorem sent_eq (accepted : Samples.ofOptions options = .ok samples) (frames : List Frame) :
    sent options frames =
      { samples, count := (frames.map fun frame => frame.size / samples.blockAlign).sum } := by
  have hconfigured : Plugin.call ({} : Encoder) (.configure options) = { samples } := by
    show (configure options {}).state = _
    rw [configure, accepted]
  have hsent := after_process { samples } frames
  rw [Nat.zero_add] at hsent
  rw [← hsent, ← hconfigured]
  rfl

/-- The line that reports a number of samples. -/
def report (samples : Samples) (count : Nat) : LogLine :=
  ⟨.info, s!"ogg: 送入 oggenc {count} 个采样 ({samples.seconds count} 秒)"⟩

/-- The number of samples can be read off the report. -/
theorem report_inj : report samples count = report samples count' ↔ count = count' := by
  refine ⟨fun hsame => ?_, fun hsame => hsame ▸ rfl⟩
  -- the digits end at the blank behind them
  have hread (n : Nat) : ∃ rest, (report samples n).text.toList =
      "ogg: 送入 oggenc ".toList ++ (Nat.toDigits 10 n ++ ' ' :: rest) := by
    refine ⟨"个采样 (".toList ++ (samples.seconds n).toList ++ " 秒)".toList, ?_⟩
    have hlist : (toString n).toList = Nat.toDigits 10 n := Nat.toList_repr
    have hblank : " 个采样 (".toList = ' ' :: "个采样 (".toList := rfl
    show ("ogg: 送入 oggenc " ++ toString n ++ " 个采样 (" ++ samples.seconds n ++ " 秒)").toList = _
    simp only [String.toList_append, hlist, hblank, List.append_assoc, List.cons_append]
  have hdigits (n : Nat) (rest : List Char) :
      (Nat.toDigits 10 n ++ ' ' :: rest).takeWhile Char.isDigit = Nat.toDigits 10 n := by
    rw [List.takeWhile_append_of_pos fun c => Nat.isDigit_of_mem_toDigits (by decide) (by decide),
      List.takeWhile_cons_of_neg (by decide), List.append_nil]
  obtain ⟨rest, htext⟩ := hread count
  obtain ⟨rest', htext'⟩ := hread count'
  rw [hsame, htext'] at htext
  have hbehind := congrArg (List.takeWhile Char.isDigit) (List.append_cancel_left htext)
  rw [hdigits, hdigits] at hbehind
  rw [← Decimal.ofDigits_toDigits count, ← hbehind, Decimal.ofDigits_toDigits]

/-- The reported count is the sum of the whole samples of each frame. -/
theorem lines_finish (accepted : Samples.ofOptions options = .ok samples) (frames : List Frame) :
    (Plugin.finish (sent options frames)).lines =
      [report samples (frames.map fun frame => frame.size / samples.blockAlign).sum] := by
  rw [sent_eq accepted]
  rfl

/-- **The encoder reports the samples that no cut between frames goes through.** Of the samples in a
stream, those are missing that the loose bytes of the frames make up; so all are reported if and
only if there are fewer of these bytes than a sample has. Two ways to cut a stream lead to the same
report if and only if as many samples are missing, and with frames of a fixed size it is the
remainders that count. -/
theorem reports_whole_samples (accepted : Samples.ofOptions options = .ok samples) :
    (∀ frames, (Plugin.finish (sent options frames)).lines =
      [report samples ((frames.map Frame.data).flatten.length / samples.blockAlign -
        loose samples.blockAlign frames / samples.blockAlign)]) ∧
    (∀ frames, (Plugin.finish (sent options frames)).lines =
        [report samples ((frames.map Frame.data).flatten.length / samples.blockAlign)] ↔
      loose samples.blockAlign frames < samples.blockAlign) ∧
    (∀ frames frames', (frames.map Frame.data).flatten = (frames'.map Frame.data).flatten →
      ((Plugin.finish (sent options frames)).lines = (Plugin.finish (sent options frames')).lines ↔
        loose samples.blockAlign frames / samples.blockAlign =
          loose samples.blockAlign frames' / samples.blockAlign)) ∧
    ∀ size start bytes, 0 < size →
      ((Plugin.finish (sent options (Frame.number start (Splitting.pieces size bytes)))).lines =
          [report samples (bytes.length / samples.blockAlign)] ↔
        bytes.length / size * (size % samples.blockAlign) +
          bytes.length % size % samples.blockAlign < samples.blockAlign) := by
  have hpositive := (Samples.isSupported_of_ofOptions accepted).blockAlign_bounds.1
  -- reported and missing samples add up to those of the stream, so the missing ones decide
  have hall (frames : List Frame) : (Plugin.finish (sent options frames)).lines =
        [report samples ((frames.map Frame.data).flatten.length / samples.blockAlign)] ↔
      loose samples.blockAlign frames < samples.blockAlign := by
    have htotal := sum_div_add_loose hpositive frames
    rw [lines_finish accepted, List.singleton_inj, report_inj,
      ← Nat.div_eq_zero_iff_lt hpositive]
    omega
  refine ⟨fun frames => ?_, hall, fun frames frames' hstream => ?_,
    fun size start bytes hsize => ?_⟩
  · rw [lines_finish accepted, ← sum_div_add_loose hpositive frames, Nat.add_sub_cancel]
  · have htotal := sum_div_add_loose hpositive frames
    have htotal' := sum_div_add_loose hpositive frames'
    rw [hstream] at htotal
    rw [lines_finish accepted, lines_finish accepted, List.singleton_inj, report_inj]
    omega
  · have hpieces := hall (Frame.number start (Splitting.pieces size bytes))
    rwa [Frame.map_data_number, Splitting.flatten_pieces hsize, loose_pieces hsize] at hpieces

/-- Three channels of sixteen bits, which frames of 4096 bytes cut through. -/
def threeChannels : OptionTable :=
  { entries := [("channels", "3")] }

theorem reports_whole_samples_three :
    Samples.ofOptions threeChannels = .ok { channels := 3 } ∧
      (Plugin.finish (sent threeChannels
          (Frame.number 1 (Splitting.pieces 4096 (List.replicate 12288 0))))).lines ≠
        [report { channels := 3 } 2048] ∧
      (Plugin.finish (sent threeChannels
          (Frame.number 1 (Splitting.pieces 6144 (List.replicate 12288 0))))).lines =
        [report { channels := 3 } 2048] := by
  have haccepted : Samples.ofOptions threeChannels = .ok { channels := 3 } := rfl
  obtain ⟨-, -, -, hfixed⟩ := reports_whole_samples haccepted
  have hcut := hfixed 4096 1 (List.replicate 12288 0) (by decide)
  have hwhole := hfixed 6144 1 (List.replicate 12288 0) (by decide)
  rw [List.length_replicate] at hcut hwhole
  refine ⟨haccepted, ?_, ?_⟩
  · intro hreported
    exact absurd (hcut.1 hreported) (by decide)
  · exact hwhole.2 (by decide)

/-- The two halves of a sample are not counted where they come in two frames. -/
theorem halves_of_sample_uncounted :
    Samples.ofOptions {} = .ok {} ∧ Samples.blockAlign {} = 4 ∧
      (Plugin.finish (sent {} [⟨1, [1, 2]⟩, ⟨2, [3, 4]⟩])).lines =
        [⟨.info, "ogg: 送入 oggenc 0 个采样 (0.00 秒)"⟩] ∧
      (Plugin.finish (sent {} [⟨1, [1, 2, 3, 4]⟩])).lines =
        [⟨.info, "ogg: 送入 oggenc 1 个采样 (0.00 秒)"⟩] := by
  refine ⟨rfl, rfl, ?_, ?_⟩
  · decide +kernel
  · decide +kernel

end Encoder

end Vorbis

end Transcode
