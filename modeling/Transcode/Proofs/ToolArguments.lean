import Transcode.Proofs.SampleCount
/-!
# The shape that the tool is called with

Options give the encoder a shape of samples or are refused, and they are refused if and only if
their shape is not supported (`Vorbis.Samples.ofOptions_eq_ok_iff`). So the encoder has a supported
shape at any time, and a sample of it has bytes to divide by. It is the shape of the options
accepted last (`Vorbis.Encoder.samples_after`), and the arguments of the tool carry it: each number
occurs once, behind its flag (`Vorbis.Samples.arguments_carry`).
-/

set_option autoImplicit false

namespace Transcode

/-! ## Options that are taken -/

namespace Plugin

variable {σ : Type} [Plugin σ]

/-- The options that a call hands to an instance, if the instance takes them. -/
def accepted (s : σ) : PluginCall → List OptionTable
  | .configure options => if (configure options s).result.isOk then [options] else []
  | _ => []

/-- The options accepted along a list of calls. -/
def acceptedBy (s : σ) : List PluginCall → List OptionTable
  | [] => []
  | c :: rest => accepted s c ++ acceptedBy (call s c) rest

end Plugin

namespace Vorbis

namespace Samples

open Decimal (Writes)

variable {options : OptionTable} {samples : Samples} {name : String} {fallback n : Nat}

/-- The number that an option gives: the one that its text writes, or the default where it is not
set. -/
inductive Gives (options : OptionTable) (name : String) (fallback : Nat) : Nat → Prop where
  | unset (unset : options.get? name = none) : Gives options name fallback fallback
  | written {text : String} {n : Nat} (set : options.get? name = some text)
      (writes : Writes text n) :
      Gives options name fallback n

/-- The shape that options ask for; what they do not set has its default. -/
structure AskedBy (samples : Samples) (options : OptionTable) : Prop where
  rate : Gives options "rate" 44100 samples.rate
  channels : Gives options "channels" 2 samples.channels
  bits : Gives options "bits" 16 samples.bits
  quality : qualityOf options = .ok samples.quality

/-- A number option is taken just where the number it gives satisfies the condition. -/
theorem number_eq_ok_iff {fits : Nat → Bool} {fault : Nat → ConfigurationFault}
    (default_fits : fits fallback = true) (bounded : ∀ n, fits n = true → n < UInt32.size) :
    number options name fallback fits fault = .ok n ↔
      Gives options name fallback n ∧ fits n = true := by
  rcases options.getBelow_cases UInt32.size name with ⟨hget, hread⟩ |
    ⟨text, m, hget, hwrites, -, hread⟩ | ⟨text, hget, hunwritten, hread⟩
  · have hnumber : number options name fallback fits fault = .ok fallback := by
      simp only [number, OptionTable.getWord32, hread]
    rw [hnumber]
    constructor
    · intro h
      cases h
      exact ⟨.unset hget, default_fits⟩
    · rintro ⟨hgives, -⟩
      cases hgives with
      | unset => rfl
      | written hset => cases hget.symm.trans hset
  · have hnumber : number options name fallback fits fault =
        if fits m then .ok m else .error (.configuration (fault m)) := by
      simp only [number, OptionTable.getWord32, hread]
    rw [hnumber]
    constructor
    · intro h
      split at h
      · next hfits =>
          cases h
          exact ⟨.written hget hwrites, hfits⟩
      · cases h
    · rintro ⟨hgives, hfits⟩
      cases hgives with
      | unset hunset => cases hget.symm.trans hunset
      | written hset hwrites' =>
          obtain rfl := Option.some.inj (hget.symm.trans hset)
          obtain rfl := hwrites.unique hwrites'
          rw [if_pos hfits]
  · have hnumber : number options name fallback fits fault =
        .error (.configuration (.notNumber name text)) := by
      simp only [number, OptionTable.getWord32, hread]
    rw [hnumber]
    refine iff_of_false (by simp) ?_
    rintro ⟨hgives, hfits⟩
    cases hgives with
    | unset hunset => cases hget.symm.trans hunset
    | written hset hwrites =>
        obtain rfl := Option.some.inj (hget.symm.trans hset)
        exact hunwritten n (bounded n hfits) hwrites

/-- A number option with a least and a greatest number. -/
theorem interval_eq_ok_iff {fault : Nat → ConfigurationFault} {least greatest : Nat}
    (default_fits : (decide (least ≤ fallback) && decide (fallback ≤ greatest)) = true)
    (bounded : greatest < UInt32.size) :
    number options name fallback (fun n => least ≤ n && n ≤ greatest) fault = .ok n ↔
      Gives options name fallback n ∧ least ≤ n ∧ n ≤ greatest := by
  rw [number_eq_ok_iff default_fits, Bool.and_eq_true, decide_eq_true_eq, decide_eq_true_eq]
  intro n hfits
  rw [Bool.and_eq_true, decide_eq_true_eq, decide_eq_true_eq] at hfits
  exact Nat.lt_of_le_of_lt hfits.2 bounded

theorem bits_eq_ok_iff :
    number options "bits" 16 (fun n => n == 8 || n == 16) .unsupportedBits = .ok n ↔
      Gives options "bits" 16 n ∧ (n = 8 ∨ n = 16) := by
  rw [number_eq_ok_iff rfl, Bool.or_eq_true, beq_iff_eq, beq_iff_eq]
  intro n hfits
  rw [Bool.or_eq_true, beq_iff_eq, beq_iff_eq] at hfits
  rcases hfits with rfl | rfl <;> decide

/-- Options are taken just where they ask for a shape that is supported. -/
theorem ofOptions_eq_ok_iff :
    ofOptions options = .ok samples ↔ samples.AskedBy options ∧ samples.IsSupported := by
  constructor
  · intro htaken
    have hsupported := isSupported_of_ofOptions htaken
    rw [ofOptions] at htaken
    obtain ⟨rate, hrate, htaken⟩ := ok_of_bind htaken
    obtain ⟨channels, hchannels, htaken⟩ := ok_of_bind htaken
    obtain ⟨bits, hbits, htaken⟩ := ok_of_bind htaken
    obtain ⟨quality, hquality, htaken⟩ := ok_of_bind htaken
    cases htaken
    obtain ⟨hrate, -⟩ := (interval_eq_ok_iff rfl (by decide)).1 hrate
    obtain ⟨hchannels, -⟩ := (interval_eq_ok_iff rfl (by decide)).1 hchannels
    obtain ⟨hbits, -⟩ := bits_eq_ok_iff.1 hbits
    exact ⟨⟨hrate, hchannels, hbits, hquality⟩, hsupported⟩
  · rintro ⟨hasked, hsupported⟩
    rw [ofOptions, (interval_eq_ok_iff rfl (by decide)).2 ⟨hasked.rate, hsupported.rate⟩,
      (interval_eq_ok_iff rfl (by decide)).2 ⟨hasked.channels, hsupported.channels⟩,
      bits_eq_ok_iff.2 ⟨hasked.bits, hsupported.bits⟩, hasked.quality]
    rfl

theorem isSupported_default : ({} : Samples).IsSupported :=
  ⟨by decide, by decide, .inr rfl⟩

end Samples

end Vorbis

/-! ## Arguments -/

namespace Decimal

/-- The digits of a decimal are digits. -/
theorem isDigit_of_mem_layout {d : Scientific} {c : Char} (mem : c ∈ (Shortest.layout d).1) :
    c.isDigit = true := by
  rw [Shortest.layout, List.mem_reverse] at mem
  have hall := List.mem_reverse.1 ((List.dropWhile_sublist _).subset mem)
  exact Nat.isDigit_of_mem_toDigits (by decide) (by decide) hall

theorem cases_of_mem_positional {digits : List Char} {place : Int} {c : Char}
    (numeric : ∀ d ∈ digits, d.isDigit = true) (mem : c ∈ positional digits place) :
    c.isDigit = true ∨ c = '.' := by
  have hzeros {n : Int} (zero : c ∈ zeros n) : c.isDigit = true := by
    rw [List.eq_of_mem_replicate zero]
    decide
  rw [positional] at mem
  split at mem
  · simp only [List.cons_append, List.mem_cons, List.mem_append] at mem
    rcases mem with rfl | rfl | hzero | hdigit
    · exact .inl rfl
    · exact .inr rfl
    · exact .inl (hzeros hzero)
    · exact .inl (numeric c hdigit)
  · split at mem
    · rcases List.mem_append.1 mem with hdigit | hzero
      · exact .inl (numeric c hdigit)
      · exact .inl (hzeros hzero)
    · rcases List.mem_append.1 mem with hfront | hback
      · exact .inl (numeric c (List.mem_of_mem_take hfront))
      · rcases List.mem_cons.1 hback with rfl | hdigit
        · exact .inr rfl
        · exact .inl (numeric c (List.mem_of_mem_drop hdigit))

/-- A finite number is written with digits, a point and a sign. -/
theorem cases_of_mem_plainText {negative : Bool} {m : Nat} {e : Int} {c : Char}
    (mem : c ∈ (Binary.finite negative m e).plainText.toList) :
    c.isDigit = true ∨ c = '.' ∨ c = '-' := by
  have hbody (hc : c ∈ if m = 0 then ['0'] else
      positional (Shortest.layout (Shortest.search single .up 9 m e)).1
        (Shortest.layout (Shortest.search single .up 9 m e)).2) : c.isDigit = true ∨ c = '.' := by
    split at hc
    · rw [List.mem_singleton.1 hc]
      decide
    · exact cases_of_mem_positional (fun d hd => isDigit_of_mem_layout hd) hc
  rw [Binary.plainText, String.toList_ofList] at mem
  cases negative with
  | true =>
      rcases List.mem_cons.1 mem with rfl | hc
      · exact .inr (.inr rfl)
      · exact (hbody hc).imp_right .inl
  | false => exact (hbody mem).imp_right .inl

/-- The letters of the flags for the shape. -/
def flagLetters : List Char :=
  ['R', 'C', 'B']

theorem flagLetter_cases {c : Char} (letter : c ∈ flagLetters) : c = 'R' ∨ c = 'C' ∨ c = 'B' := by
  simpa [flagLetters] using letter

theorem not_digit_of_flagLetter {c : Char} (letter : c ∈ flagLetters) :
    ¬ (c.isDigit = true ∨ c = '.' ∨ c = '-') := by
  rcases flagLetter_cases letter with rfl | rfl | rfl <;> decide

theorem not_mem_toString {c : Char} (letter : c ∈ flagLetters) (n : Nat) :
    c ∉ (toString n).toList := by
  intro hc
  have hlist : (toString n).toList = Nat.toDigits 10 n := Nat.toList_repr
  apply not_digit_of_flagLetter letter
  exact .inl (Nat.isDigit_of_mem_toDigits (by decide) (by decide) (hlist ▸ hc))

theorem not_mem_plainText {c : Char} (letter : c ∈ flagLetters) (q : Binary) :
    c ∉ q.plainText.toList := by
  cases q with
  | finite negative m e =>
      intro hc
      exact not_digit_of_flagLetter letter (cases_of_mem_plainText hc)
  | infinite negative =>
      cases negative <;> rcases flagLetter_cases letter with rfl | rfl | rfl <;> decide
  | nan => rcases flagLetter_cases letter with rfl | rfl | rfl <;> decide

end Decimal

namespace Vorbis

/-- Among arguments a flag stands once, and behind it the decimal of a number. -/
def Carries (args : List String) (flag : String) (n : Nat) : Prop :=
  ∃ front back, args = front ++ flag :: toString n :: back ∧ flag ∉ front ∧
    flag ∉ toString n :: back

/-- The flags for the shape. -/
def shapeFlags : List String :=
  ["-R", "-C", "-B"]

theorem exists_letter {flag : String} (mem : flag ∈ shapeFlags) :
    ∃ c ∈ Decimal.flagLetters, c ∈ flag.toList := by
  simp only [shapeFlags, List.mem_cons, List.not_mem_nil, or_false] at mem
  rcases mem with rfl | rfl | rfl
  · exact ⟨'R', by simp [Decimal.flagLetters], by simp⟩
  · exact ⟨'C', by simp [Decimal.flagLetters], by simp⟩
  · exact ⟨'B', by simp [Decimal.flagLetters], by simp⟩

theorem flag_ne_toString {flag : String} (mem : flag ∈ shapeFlags) (n : Nat) :
    flag ≠ toString n := by
  rintro rfl
  obtain ⟨c, hletter, hc⟩ := exists_letter mem
  exact Decimal.not_mem_toString hletter n hc

namespace Samples

/-- The arguments behind the shape hold none of its flags. -/
theorem arguments_eq (s : Samples) : ∃ rest,
    s.arguments = "-Q" :: "-r" :: "-R" :: toString s.rate :: "-C" :: toString s.channels :: "-B" ::
      toString s.bits :: rest ∧ ∀ flag ∈ shapeFlags, flag ∉ rest := by
  obtain ⟨rate, channels, bits, quality⟩ := s
  cases quality with
  | none => exact ⟨["-o", "-", "-"], rfl, by decide⟩
  | some q =>
      refine ⟨["-q", q.plainText, "-o", "-", "-"], rfl, ?_⟩
      intro flag hflag hmem
      have hothers : ∀ flag ∈ shapeFlags, flag ∉ ["-q", "-o", "-", "-"] := by decide
      have hquality : flag ≠ q.plainText := by
        rintro rfl
        obtain ⟨c, hletter, hc⟩ := exists_letter hflag
        exact Decimal.not_mem_plainText hletter q hc
      apply hothers flag hflag
      simpa [hquality] using hmem

/-- The arguments carry the shape: each number occurs once, behind its flag. -/
theorem arguments_carry (s : Samples) : Carries s.arguments "-R" s.rate ∧
    Carries s.arguments "-C" s.channels ∧ Carries s.arguments "-B" s.bits := by
  obtain ⟨rest, hargs, hrest⟩ := s.arguments_eq
  have hother (flag : String) (mem : flag ∈ shapeFlags) : flag ≠ toString s.rate ∧
      flag ≠ toString s.channels ∧ flag ≠ toString s.bits ∧ flag ∉ rest :=
    ⟨flag_ne_toString mem _, flag_ne_toString mem _, flag_ne_toString mem _, hrest flag mem⟩
  have hrate := hother "-R" (by decide)
  have hchannels := hother "-C" (by decide)
  have hbits := hother "-B" (by decide)
  rw [hargs]
  unfold Carries
  -- no text of a number is looked into from here on
  generalize toString s.rate = rate at *
  generalize toString s.channels = channels at *
  generalize toString s.bits = bits at *
  refine ⟨⟨["-Q", "-r"], _, rfl, by decide, ?_⟩, ⟨["-Q", "-r", "-R", rate], _, rfl, ?_, ?_⟩,
    ⟨["-Q", "-r", "-R", rate, "-C", channels], _, rfl, ?_, ?_⟩⟩
  · simp [hrate]
  · simp [hchannels]
  · simp [hchannels]
  · simp [hbits]
  · simp [hbits]

end Samples

/-! ## The encoder at any time -/

namespace Encoder

open Plugin (call after accepted acceptedBy)

/-- All that configuring can do: the options are refused and nothing changes, or their shape is
taken. -/
theorem configure_cases (options : OptionTable) (s : Encoder) :
    (∃ e, Samples.ofOptions options = .error e ∧
      s.configure options = { result := .error e, state := s }) ∨
    ∃ samples, Samples.ofOptions options = .ok samples ∧ (s.configure options).result = .ok () ∧
      (s.configure options).state = { s with samples } := by
  cases hread : Samples.ofOptions options with
  | error e => exact .inl ⟨e, rfl, by rw [configure, hread]⟩
  | ok samples => exact .inr ⟨samples, rfl, by rw [configure, hread], by rw [configure, hread]⟩

theorem exists_configure_iff (options : OptionTable) (s : Encoder) :
    (s.configure options).result = .ok () ↔
      ∃ samples : Samples, samples.AskedBy options ∧ samples.IsSupported := by
  simp only [← Samples.ofOptions_eq_ok_iff]
  rcases configure_cases options s with ⟨e, hread, hturn⟩ | ⟨samples, hread, htaken, -⟩
  · simp [hread, hturn]
  · exact iff_of_true htaken ⟨samples, hread⟩

/-- A call replaces the shape by the one of its options, or keeps it. -/
theorem samples_call (s : Encoder) (c : PluginCall) :
    (accepted s c = [] ∧ (call s c).samples = s.samples) ∨
      ∃ options, accepted s c = [options] ∧ Samples.ofOptions options = .ok (call s c).samples := by
  cases c with
  | configure options =>
      rcases configure_cases options s with ⟨e, -, hturn⟩ | ⟨samples, hread, htaken, hstate⟩
      · have hrefused : Plugin.configure options s = { result := .error e, state := s } := hturn
        rw [accepted, call, hrefused]
        exact .inl ⟨rfl, rfl⟩
      · have htaken' : (Plugin.configure options s).result = .ok () := htaken
        have hstate' : call s (.configure options) = { s with samples } := hstate
        rw [accepted, htaken', hstate']
        exact .inr ⟨options, rfl, hread⟩
  | process frame => exact .inl ⟨rfl, rfl⟩
  | finish => exact .inl ⟨rfl, rfl⟩

/-- The shape after a list of calls is that of the options accepted last. -/
theorem samples_after (s : Encoder) (calls : List PluginCall) :
    (acceptedBy s calls = [] ∧ (after s calls).samples = s.samples) ∨
      ∃ options, (acceptedBy s calls).getLast? = some options ∧
        Samples.ofOptions options = .ok (after s calls).samples := by
  induction calls generalizing s with
  | nil => exact .inl ⟨rfl, rfl⟩
  | cons c rest ih =>
      have hafter : after s (c :: rest) = after (call s c) rest := rfl
      rw [hafter, acceptedBy, List.getLast?_append]
      rcases ih (call s c) with ⟨hnone, hsamples⟩ | ⟨options, hlast, hread⟩
      · -- no options are taken behind this call, so the call decides
        rw [hnone, hsamples]
        rcases samples_call s c with ⟨hkept, hsame⟩ | ⟨options, htaken, hread⟩
        · exact .inl ⟨by rw [hkept, List.append_nil], hsame⟩
        · exact .inr ⟨options, by rw [htaken]; rfl, hread⟩
      · exact .inr ⟨options, by rw [hlast]; rfl, hread⟩

theorem isSupported_after (calls : List PluginCall) :
    (after ({} : Encoder) calls).samples.IsSupported := by
  rcases samples_after {} calls with ⟨-, hsamples⟩ | ⟨options, -, hread⟩
  · rw [hsamples]
    exact Samples.isSupported_default
  · exact Samples.isSupported_of_ofOptions hread

/-- An encoder works with the shape it has. -/
structure WorksWithShape (s : Encoder) : Prop where
  supported : s.samples.IsSupported
  /-- A sample has bytes to divide by. -/
  align : 1 ≤ s.samples.blockAlign ∧ s.samples.blockAlign ≤ 16
  /-- A frame is let through, and the whole samples in it are counted; the rest of it is less than
  one. -/
  counts : ∀ frame, ∃ whole rest, frame.size = s.samples.blockAlign * whole + rest ∧
    rest < s.samples.blockAlign ∧
    Plugin.encode frame s = { result := .ok frame, state := { s with count := s.count + whole } }
  /-- The tool is called with the shape. -/
  calls : ∃ args, Plugin.invocation s = some ⟨"oggenc", args⟩ ∧ Carries args "-R" s.samples.rate ∧
    Carries args "-C" s.samples.channels ∧ Carries args "-B" s.samples.bits
  /-- Options are taken just where they ask for a shape that is supported. -/
  takes : ∀ options, (Plugin.configure options s).result = .ok () ↔
    ∃ samples : Samples, samples.AskedBy options ∧ samples.IsSupported

theorem worksWithShape_of_isSupported {s : Encoder} (supported : s.samples.IsSupported) :
    s.WorksWithShape where
  supported := supported
  align := supported.blockAlign_bounds
  counts := by
    intro frame
    refine ⟨frame.size / s.samples.blockAlign, frame.size % s.samples.blockAlign,
      (Nat.div_add_mod _ _).symm, ?_, rfl⟩
    exact Nat.mod_lt _ supported.blockAlign_bounds.1
  calls := ⟨s.samples.arguments, rfl, s.samples.arguments_carry⟩
  takes := by
    intro options
    exact exists_configure_iff options s

/-- **At any time an encoder has a supported shape to divide by, and calls the tool with it.** After
any calls, successful or not, the shape is that of the options accepted last, with the defaults for
all they do not set; before any are accepted it is 44100 samples a second of two channels with
sixteen bits. -/
theorem works_with_shape_at_any_time (calls : List PluginCall) :
    (after ({} : Encoder) calls).WorksWithShape ∧
    (acceptedBy ({} : Encoder) calls = [] → (after ({} : Encoder) calls).samples.rate = 44100 ∧
      (after ({} : Encoder) calls).samples.channels = 2 ∧
      (after ({} : Encoder) calls).samples.bits = 16) ∧
    ∀ options, (acceptedBy ({} : Encoder) calls).getLast? = some options →
      (after ({} : Encoder) calls).samples.AskedBy options := by
  refine ⟨worksWithShape_of_isSupported (isSupported_after calls), ?_, ?_⟩
  · intro hnone
    rcases samples_after {} calls with ⟨-, hsamples⟩ | ⟨options, hlast, -⟩
    · rw [hsamples]
      exact ⟨rfl, rfl, rfl⟩
    · rw [hnone] at hlast
      cases hlast
  · intro options hlast
    rcases samples_after {} calls with ⟨hnone, -⟩ | ⟨options', hlast', hread⟩
    · rw [hnone] at hlast
      cases hlast
    · obtain rfl := Option.some.inj (hlast'.symm.trans hlast)
      exact (Samples.ofOptions_eq_ok_iff.1 hread).1

/-- A shape is taken, another one refused, and the one taken last sets the channels only. -/
def reconfiguring : List PluginCall :=
  [.configure { entries := [("bits", "8"), ("channels", "1"), ("rate", "+22050")] },
    .process ⟨1, [7, 8, 9]⟩,
    .configure { entries := [("channels", "8")] },
      .configure { entries := [("bits", "24"), ("channels", "0")] }]

theorem works_with_shape_at_any_time_reconfigured :
    acceptedBy ({} : Encoder) reconfiguring =
      [{ entries := [("bits", "8"), ("channels", "1"), ("rate", "+22050")] },
      { entries := [("channels", "8")] }] ∧
    (after ({} : Encoder) reconfiguring).WorksWithShape ∧
    (after ({} : Encoder) reconfiguring).samples.AskedBy { entries := [("channels", "8")] } ∧
    (after ({} : Encoder) reconfiguring).samples = { channels := 8 } ∧
    (after ({} : Encoder) [.configure { entries := [("channels", "0")] }]).samples.channels =
      2 := by
  have haccepted : acceptedBy ({} : Encoder) reconfiguring =
      [{ entries := [("bits", "8"), ("channels", "1"), ("rate", "+22050")] },
        { entries := [("channels", "8")] }] := by
    decide +kernel
  obtain ⟨hworks, -, hasked⟩ := works_with_shape_at_any_time reconfiguring
  obtain ⟨-, hdefault, -⟩ :=
    works_with_shape_at_any_time [.configure { entries := [("channels", "0")] }]
  refine ⟨haccepted, hworks, hasked _ (by rw [haccepted]; rfl), by decide +kernel, ?_⟩
  exact (hdefault (by decide +kernel)).2.1

end Encoder

end Vorbis

end Transcode
