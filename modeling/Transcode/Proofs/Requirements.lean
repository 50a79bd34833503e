import Transcode.Proofs.ByteOrder
import Transcode.Proofs.OptionValues
/-!
# The requirements of a job

The requirements of a job in the order in which they are checked (`Requirement.inOrder`), when a job
meets one (`Job.Meets`), and the failure for one that is violated (`Job.Breaks`). Validation is
passed if and only if all are met; else it fails with the failure of the first violated one
(`Job.validate_finds_first_broken`). Validation is a sequence of single checks (`Job.check_eq`),
each of which settles its requirement (`Job.settles_verdict`).
-/

set_option autoImplicit false

namespace Transcode

/-- The requirements on a job. -/
inductive Requirement where
  /-- Every option is a generic one or taken by a plugin of the chain. -/
  | optionNames
  /-- An option is a positive number below a limit. -/
  | number (name : String) (limit : Nat)
  /-- An option is a truth value. -/
  | switch (name : String)
  /-- The importer is a decoder. -/
  | decoder
  /-- The plugin behind an importer is an encoder. -/
  | encoder
  /-- The plugins of the chain have one media type. -/
  | sameMedia
  /-- One plugin of the chain at most works through a tool. -/
  | oneTool
  /-- The output format is known. -/
  | format
  | supportedFormat
  /-- The container is a format. -/
  | container
  | supportedContainer
  /-- The tools of the chain are there. -/
  | tools
  /-- A bare stream has no container. -/
  | noContainer
  /-- A bare video stream with audio leaves the audio to a path of its own. -/
  | audioPath
deriving DecidableEq

/-- The order in which the requirements are checked. -/
def Requirement.inOrder : List Requirement :=
  [.optionNames, .number "frame_size" UInt32.size, .number "tool_timeout_ms" UInt64.size,
    .switch "raw",
    .switch "audio", .switch "keep_partial", .decoder, .encoder, .sameMedia, .oneTool, .format,
    .supportedFormat, .container, .supportedContainer, .tools, .noContainer, .audioPath]

namespace Job

open Decimal OptionTable

variable {job : Job} {available : String → Bool} {e : Error}

/-- An option that is a generic one or taken by a plugin of the chain. -/
def Accepts (job : Job) (name : String) : Prop :=
  name ∈ OptionTable.generic ∨ ∃ d ∈ job.chain, name ∈ d.options

/-- The requested format: the `format` option, else the extension of the output path, else the
format declared first. -/
inductive Requests (job : Job) : FormatTag → Prop where
  | option {text : String} (set : job.options.get? "format" = some text)
      (written : (FormatTag.ofText text).IsWritten) : Requests job (FormatTag.ofText text)
  | extension {tag : FormatTag} (unset : job.options.get? "format" = none)
      (named : FormatTag.ofPath? job.effectiveOutput = some tag) : Requests job tag
  | preferred {tag : FormatTag} {rest : List FormatTag} (unset : job.options.get? "format" = none)
      (unnamed : FormatTag.ofPath? job.effectiveOutput = none)
      (declared : job.selected.formats = tag :: rest) : Requests job tag

/-- The output is a bare stream, by the nature of the plugin or by the `raw` option. -/
def IsBare (job : Job) : Prop :=
  job.selected.isRawBitstream = true ∨ job.options.IsOn "raw"

/-- A job meets a requirement. -/
def Meets (job : Job) (available : String → Bool) : Requirement → Prop
  | .optionNames => ∀ name ∈ job.options.names, job.Accepts name
  | .number name limit => ∀ text, job.options.get? name = some text →
      ∃ n, Writes text n ∧ 0 < n ∧ n < limit
  | .switch name => ∀ text, job.options.get? name = some text → ∃ b, IsWord b text
  | .decoder => ∀ importer, job.importer? = some importer → importer.kind = .decoder
  | .encoder => ∀ importer, job.importer? = some importer → job.selected.kind = .encoder
  | .sameMedia => ∀ importer, job.importer? = some importer → importer.media = job.selected.media
  | .oneTool => job.chain.countP Descriptor.isExternal ≤ 1
  | .format => ∃ tag, job.Requests tag
  | .supportedFormat => ∀ tag, job.Requests tag → tag ∈ job.selected.formats
  | .container => ∀ text, job.options.get? "container" = some text →
      (FormatTag.ofText text).IsWritten
  | .supportedContainer => ∀ text, job.options.get? "container" = some text →
      (FormatTag.ofText text).IsWritten → FormatTag.ofText text ∈ job.selected.formats
  | .tools => ∀ d ∈ job.chain, ∀ tool ∈ d.tools, available tool = true
  | .noContainer => ¬ (job.IsBare ∧ job.options.get? "container" ≠ none)
  | .audioPath => ¬ (job.IsBare ∧ job.selected.media = .video ∧ job.options.IsOn "audio" ∧
      job.rawAudio? = none)

/-- Violation of a requirement, with the failure reported for it. -/
inductive Breaks (job : Job) (available : String → Bool) : Requirement → Error → Prop where
  /-- Of several options that are refused, the first in byte order is named. -/
  | optionNames {name : String} (mem : name ∈ job.options.names) (refused : ¬ job.Accepts name)
      (first : ∀ other ∈ job.options.names, ¬ job.Accepts other →
        Utf8.encode name ≤ Utf8.encode other) :
      Breaks job available .optionNames (.configuration (.optionRefused job.selected.name name))
  | number {name text : String} {limit : Nat} {fault : ConfigurationFault}
      (set : job.options.get? name = some text) (wrong : NumberFault limit name text fault) :
      Breaks job available (.number name limit) (.configuration fault)
  | switch {name text : String} (set : job.options.get? name = some text)
      (wrong : ∀ b, ¬ IsWord b text) :
      Breaks job available (.switch name) (.configuration (.notBool name text))
  | decoder {importer : Descriptor} (set : job.importer? = some importer)
      (wrong : importer.kind ≠ .decoder) :
      Breaks job available .decoder (.validation
        (.incompatibleChain importer.name job.selected.name (.notDecoder importer.name)))
  | encoder {importer : Descriptor} (set : job.importer? = some importer)
      (wrong : job.selected.kind ≠ .encoder) :
      Breaks job available .encoder (.validation
        (.incompatibleChain importer.name job.selected.name (.notEncoder job.selected.name)))
  | sameMedia {importer : Descriptor} (set : job.importer? = some importer)
      (wrong : importer.media ≠ job.selected.media) :
      Breaks job available .sameMedia (.validation
        (.incompatibleChain importer.name job.selected.name
          (.mediaDiffer importer.media.label job.selected.media.label)))
  | oneTool {importer : Descriptor} (set : job.importer? = some importer)
      (wrong : 1 < job.chain.countP Descriptor.isExternal) :
      Breaks job available .oneTool (.validation
        (.incompatibleChain importer.name job.selected.name .twoTools))
  | formatOption {text : String} {fault : ConfigurationFault}
      (set : job.options.get? "format" = some text) (wrong : FormatTag.Fault text fault) :
      Breaks job available .format (.configuration fault)
  | noFormat (unset : job.options.get? "format" = none)
      (unnamed : FormatTag.ofPath? job.effectiveOutput = none)
      (undeclared : job.selected.formats = []) :
      Breaks job available .format (.configuration (.formatUnknown job.selected.name))
  | supportedFormat {tag : FormatTag} (requested : job.Requests tag)
      (wrong : tag ∉ job.selected.formats) :
      Breaks job available .supportedFormat (.validation
        (.unsupportedFormat job.selected.name tag.text job.selected.formatsText))
  | container {text : String} {fault : ConfigurationFault}
      (set : job.options.get? "container" = some text) (wrong : FormatTag.Fault text fault) :
      Breaks job available .container (.configuration fault)
  | supportedContainer {text : String} (set : job.options.get? "container" = some text)
      (written : (FormatTag.ofText text).IsWritten)
      (wrong : FormatTag.ofText text ∉ job.selected.formats) :
      Breaks job available .supportedContainer (.validation
        (.unsupportedFormat job.selected.name (FormatTag.ofText text).text
          job.selected.formatsText))
  /-- The first plugin that lacks a tool is named, with the first tool it lacks. -/
  | tools {before after : List Descriptor} {d : Descriptor} {tool : String}
      {found rest : List String} (chain : job.chain = before ++ d :: after)
      (ready : ∀ d' ∈ before, ∀ tool ∈ d'.tools, available tool = true)
      (needs : d.tools = found ++ tool :: rest) (there : ∀ tool ∈ found, available tool = true)
      (missing : available tool = false) :
      Breaks job available .tools (.validation (.missingTool d.name tool))
  | noContainer (bare : job.IsBare) (set : job.options.get? "container" ≠ none) :
      Breaks job available .noContainer (.validation (.conflictingOptions "raw" "container"))
  | audioPath (bare : job.IsBare) (video : job.selected.media = .video)
      (audio : job.options.IsOn "audio") (unset : job.rawAudio? = none) :
      Breaks job available .audioPath (.validation (.missingRawAudio job.selected.name))

/-! ## The checks one by one -/

/-- The verdict on the importer. -/
def importVerdict (job : Job) (fault? : Descriptor → Option ChainFault) : Except Error Unit :=
  match job.importer? with
  | none => .ok ()
  | some importer =>
      match fault? importer with
      | some fault =>
          .error (.validation (.incompatibleChain importer.name job.selected.name fault))
      | none => .ok ()

/-- The verdict on a format, if there is one. -/
def supportVerdict (job : Job) : Except Error FormatTag → Except Error Unit
  | .ok tag => job.checkSupported tag
  | .error _ => .ok ()

/-- Whether the output is a bare stream, as far as the options can be read. -/
def bare (job : Job) : Bool :=
  job.writesRaw.toOption.getD false

/-- The verdict on a single requirement. -/
def verdict (job : Job) (available : String → Bool) : Requirement → Except Error Unit
  | .optionNames => job.checkOptionNames
  | .number name limit => ((job.options.getBelow limit name).bind (positive name 0)).map fun _ => ()
  | .switch name => (job.options.getBool name).map fun _ => ()
  | .decoder => job.importVerdict fun importer =>
      if importer.kind ≠ .decoder then some (.notDecoder importer.name) else none
  | .encoder => job.importVerdict fun _ =>
      if job.selected.kind ≠ .encoder then some (.notEncoder job.selected.name) else none
  | .sameMedia => job.importVerdict fun importer =>
      if importer.media ≠ job.selected.media then
        some (.mediaDiffer importer.media.label job.selected.media.label) else none
  | .oneTool => job.importVerdict fun importer =>
      if importer.isExternal && job.selected.isExternal then some .twoTools else none
  | .format => job.requestedFormat.map fun _ => ()
  | .supportedFormat => job.supportVerdict job.requestedFormat
  | .container =>
      match job.options.get? "container" with
      | none => .ok ()
      | some text => (FormatTag.parse text).map fun _ => ()
  | .supportedContainer =>
      match job.options.get? "container" with
      | none => .ok ()
      | some text => job.supportVerdict (FormatTag.parse text)
  | .tools => job.checkTools available
  | .noContainer =>
      if job.bare && job.options.contains "container" then
        .error (.validation (.conflictingOptions "raw" "container"))
      else .ok ()
  | .audioPath =>
      if job.bare && job.selected.media == .video &&
          (job.options.flag "audio").toOption.getD false && job.rawAudio?.isNone then
        .error (.validation (.missingRawAudio job.selected.name))
      else .ok ()

/-! ## The checks in their order -/

section InTurn

variable {α : Type} {f : α → Except Error Unit} {l : List α}

/-- Checks in turn are all passed if each is. -/
theorem forM_eq_ok_iff : forM l f = .ok () ↔ ∀ a ∈ l, f a = .ok () := by
  induction l with
  | nil => simp [pure, Except.pure]
  | cons a l ih =>
      rw [List.forM_cons, List.forall_mem_cons, ← ih]
      cases f a with
      | error e => simp [bind, Except.bind]
      | ok _ => simp [bind, Except.bind]

/-- Of checks in turn the first that is not passed decides. -/
theorem forM_eq_error_iff : forM l f = .error e ↔
    ∃ before a after, l = before ++ a :: after ∧ (∀ b ∈ before, f b = .ok ()) ∧ f a = .error e := by
  induction l with
  | nil => simp [pure, Except.pure]
  | cons a l ih =>
      rw [List.forM_cons]
      -- a failure at once leaves no room for checks before it, and a success is one more of these
      cases ha : f a with
      | error e' =>
          constructor
          · rintro ⟨⟩
            exact ⟨[], a, l, rfl, by simp, ha⟩
          · rintro ⟨before, b, after, hl, hbefore, hb⟩
            cases before with
            | nil =>
                cases hl
                exact ha.symm.trans hb
            | cons c before =>
                cases hl
                cases ha.symm.trans (hbefore a List.mem_cons_self)
      | ok _ =>
          refine ih.trans ⟨?_, ?_⟩
          · rintro ⟨before, b, after, rfl, hbefore, hb⟩
            exact ⟨a :: before, b, after, rfl, List.forall_mem_cons.2 ⟨ha, hbefore⟩, hb⟩
          · rintro ⟨before, b, after, hl, hbefore, hb⟩
            cases before with
            | nil =>
                cases hl
                cases ha.symm.trans hb
            | cons c before =>
                cases hl
                exact ⟨before, b, after, rfl, (List.forall_mem_cons.1 hbefore).2, hb⟩

end InTurn

/-- The default of a missing number does not affect the verdict. -/
theorem verdict_number (job : Job) (available : String → Bool) (name : String)
    (limit fallback : Nat) :
    job.verdict available (.number name limit) =
      ((job.options.getBelow limit name).bind (positive name fallback)).map fun _ => () := by
  rw [verdict]
  cases job.options.getBelow limit name with
  | error e => rfl
  | ok n? =>
      match n? with
      | none | some 0 | some (n + 1) => rfl

theorem checkOptionValues_eq (job : Job) (available : String → Bool) :
    job.checkOptionValues =
      forM [.number "frame_size" UInt32.size, .number "tool_timeout_ms" UInt64.size, .switch "raw",
        .switch "audio", .switch "keep_partial"] (job.verdict available) := by
  have hframe : job.verdict available (.number "frame_size" UInt32.size) =
      job.frameSize.map fun _ => () := job.verdict_number available _ _ defaultFrameSize
  have htimeout : job.verdict available (.number "tool_timeout_ms" UInt64.size) =
      job.toolTimeout.map fun _ => () := job.verdict_number available _ _ defaultToolTimeout
  -- from here on both sides read the same options in the same order
  simp only [List.forM_cons, List.forM_nil, hframe, htimeout]
  simp only [verdict, checkOptionValues]
  cases job.frameSize with
  | error e => rfl
  | ok size =>
      cases job.toolTimeout with
      | error e => rfl
      | ok timeout =>
          cases job.options.getBool "raw" with
          | error e => rfl
          | ok raw =>
              cases job.options.getBool "audio" with
              | error e => rfl
              | ok audio => cases job.options.getBool "keep_partial" <;> rfl

theorem checkChain_eq (job : Job) (available : String → Bool) :
    job.checkChain =
      forM [.decoder, .encoder, .sameMedia, .oneTool] (job.verdict available) := by
  simp only [List.forM_cons, List.forM_nil, verdict, importVerdict, checkChain]
  cases job.importer? with
  | none => rfl
  | some importer =>
      unfold chainFault?
      by_cases hdecoder : importer.kind = .decoder
      · by_cases hencoder : job.selected.kind = .encoder
        · by_cases hmedia : importer.media = job.selected.media
          · cases htools : importer.isExternal && job.selected.isExternal <;>
              simp [hdecoder, hencoder, hmedia, htools, bind, Except.bind, pure, Except.pure]
          · simp [hdecoder, hencoder, hmedia, bind, Except.bind]
        · simp [hdecoder, hencoder, bind, Except.bind]
      · simp [hdecoder, bind, Except.bind]

theorem checkFormat_eq (job : Job) (available : String → Bool) :
    job.checkFormat =
      forM [.format, .supportedFormat, .container, .supportedContainer]
        (job.verdict available) := by
  simp only [List.forM_cons, List.forM_nil, verdict, checkFormat]
  cases job.requestedFormat with
  | error e => rfl
  | ok tag =>
      cases hformat : job.checkSupported tag with
      | error e => simp only [supportVerdict, hformat, bind, Except.bind, Except.map]
      | ok _ =>
          simp only [supportVerdict, hformat, bind, Except.bind, Except.map, pure, Except.pure]
          cases job.options.get? "container" with
          | none => rfl
          | some text =>
              simp only
              cases FormatTag.parse text with
              | error e => rfl
              | ok container =>
                  simp only
                  cases job.checkSupported container <;> rfl

theorem exists_flag_of_verdict {name : String}
    (passed : job.verdict available (.switch name) = .ok ()) :
    ∃ b, job.options.flag name = .ok b := by
  rw [verdict] at passed
  cases hbool : job.options.getBool name with
  | error e =>
      rw [hbool] at passed
      cases passed
  | ok b? => exact ⟨b?.getD false, by rw [flag, hbool]; rfl⟩

/-- The last two checks read options that have been read before. -/
theorem checkExclusive_eq (raw : job.verdict available (.switch "raw") = .ok ())
    (audio : job.verdict available (.switch "audio") = .ok ()) :
    job.checkExclusive = forM [.noContainer, .audioPath] (job.verdict available) := by
  obtain ⟨raw, hraw⟩ := exists_flag_of_verdict raw
  obtain ⟨audio, haudio⟩ := exists_flag_of_verdict audio
  have hbare : job.writesRaw = .ok job.bare := by
    unfold bare writesRaw
    split
    · rfl
    · rw [hraw]
      rfl
  simp only [List.forM_cons, List.forM_nil, verdict, checkExclusive, hbare, haudio, bind,
    Except.bind, pure, Except.pure, Except.toOption, Option.getD_some]
  cases job.bare with
  | false => rfl
  | true =>
      cases job.options.contains "container" with
      | true => rfl
      | false =>
          cases job.selected.media == .video with
          | false => rfl
          | true => cases hleft : audio && job.rawAudio?.isNone <;> simp [hleft]

/-- The checks are those of the requirements, in their order. -/
theorem check_eq (job : Job) (available : String → Bool) :
    job.check available = forM Requirement.inOrder (job.verdict available) := by
  have hinOrder : Requirement.inOrder = .optionNames :: ([.number "frame_size" UInt32.size,
      .number "tool_timeout_ms" UInt64.size, .switch "raw", .switch "audio",
        .switch "keep_partial"] ++
      ([.decoder, .encoder, .sameMedia, .oneTool] ++
      ([.format, .supportedFormat, .container, .supportedContainer] ++
      .tools :: [.noContainer, .audioPath]))) := rfl
  rw [hinOrder, List.forM_cons, List.forM_append, List.forM_append, List.forM_append,
    ← checkOptionValues_eq, ← checkChain_eq, ← checkFormat_eq, List.forM_cons]
  show job.check available = (do
    job.checkOptionNames; job.checkOptionValues; job.checkChain; job.checkFormat
    job.checkTools available; forM [.noContainer, .audioPath] (job.verdict available))
  -- the last two checks are known only where the options could be read
  cases hvalues : job.checkOptionValues with
  | error e =>
      simp only [check, hvalues]
      cases job.checkOptionNames <;> rfl
  | ok _ =>
      have hpassed := hvalues
      rw [checkOptionValues_eq job available, forM_eq_ok_iff] at hpassed
      rw [check, hvalues, checkExclusive_eq (hpassed _ (by simp)) (hpassed _ (by simp))]

/-! ## Correctness of each check -/

/-- A property of the value that is set, for every value of the option. -/
theorem forall_of_eq_some {α : Type} {x : Option α} {a : α} {P : α → Prop} (set : x = some a)
    (holds : P a) : ∀ b, x = some b → P b := by
  intro b hb
  obtain rfl := Option.some.inj (set.symm.trans hb)
  exact holds

/-- Correctness of a verdict: the requirement is met, or it is violated with this failure. -/
def Settles (job : Job) (available : String → Bool) (r : Requirement)
    (x : Except Error Unit) : Prop :=
  (x = .ok () ∧ job.Meets available r) ∨ ∃ e, x = .error e ∧ job.Breaks available r e

theorem acceptsOption_eq_true_iff {name : String} :
    job.acceptsOption name = true ↔ job.Accepts name := by
  simp [acceptsOption, Accepts, Descriptor.accepts]

/-- Of the options that are refused, the one found first comes first in byte order. -/
theorem settles_optionNames : job.Settles available .optionNames job.checkOptionNames := by
  unfold checkOptionNames
  cases hfind : job.options.names.find? fun name => !job.acceptsOption name with
  | none =>
      refine .inl ⟨rfl, ?_⟩
      intro name hname
      have haccepted := List.find?_eq_none.1 hfind name hname
      exact acceptsOption_eq_true_iff.1 (by simpa using haccepted)
  | some name =>
      obtain ⟨hrefused, front, back, hnames, hfront⟩ := List.find?_eq_some_iff_append.1 hfind
      refine .inr ⟨_, rfl, .optionNames (by rw [hnames]; simp) ?_ ?_⟩
      · rw [← acceptsOption_eq_true_iff]
        simpa using hrefused
      · intro other hother hrefused'
        have hsorted := job.options.names_increasing
        rw [hnames, List.pairwise_append, List.pairwise_cons] at hsorted
        rw [hnames, List.mem_append, List.mem_cons] at hother
        -- before it all are accepted, and after it the names only increase
        rcases hother with hother | rfl | hother
        · have haccepted := hfront other hother
          exact absurd (acceptsOption_eq_true_iff.1 (by simpa using haccepted)) hrefused'
        · exact List.le_refl _
        · exact List.le_of_lt (hsorted.2.1.1 other hother)

theorem settles_number (name : String) (limit : Nat) :
    job.Settles available (.number name limit) (job.verdict available (.number name limit)) := by
  rw [verdict]
  rcases getPositive_cases job.options name limit 0 with ⟨hget, hread⟩ |
    ⟨text, n, hget, hwrites, hpositive, hlimit, hread⟩ | ⟨text, fault, hget, hwrong, hread⟩
  · rw [hread]
    exact .inl ⟨rfl, by simp [Meets, hget]⟩
  · rw [hread]
    exact .inl ⟨rfl, forall_of_eq_some hget ⟨n, hwrites, hpositive, hlimit⟩⟩
  · rw [hread]
    exact .inr ⟨_, rfl, .number hget hwrong⟩

theorem settles_switch (name : String) :
    job.Settles available (.switch name) (job.verdict available (.switch name)) := by
  rw [verdict]
  rcases getBool_cases job.options name with ⟨hget, hread⟩ | ⟨text, b, hget, hword, hread⟩ |
    ⟨text, hget, hword, hread⟩
  · rw [hread]
    exact .inl ⟨rfl, by simp [Meets, hget]⟩
  · rw [hread]
    exact .inl ⟨rfl, forall_of_eq_some hget ⟨b, hword⟩⟩
  · rw [hread]
    exact .inr ⟨_, rfl, .switch hget hword⟩

/-- The checks of the chain are of one kind: something may be wrong with an importer. -/
theorem settles_import {r : Requirement} {wrong : Descriptor → Prop} [DecidablePred wrong]
    {fault : Descriptor → ChainFault}
    (met : (∀ importer, job.importer? = some importer → ¬ wrong importer) → job.Meets available r)
    (broken : ∀ importer, job.importer? = some importer → wrong importer →
      job.Breaks available r (.validation
        (.incompatibleChain importer.name job.selected.name (fault importer)))) :
    job.Settles available r (job.importVerdict fun importer =>
      if wrong importer then some (fault importer) else none) := by
  unfold importVerdict
  cases himporter : job.importer? with
  | none => exact .inl ⟨rfl, met (by simp [himporter])⟩
  | some importer =>
      by_cases hwrong : wrong importer
      · exact .inr ⟨_, by simp only [hwrong, if_true], broken importer himporter hwrong⟩
      · exact .inl ⟨by simp only [hwrong, if_false], met (forall_of_eq_some himporter hwrong)⟩

/-- With an importer, both plugins of the chain may work through a tool. -/
theorem countP_isExternal {importer : Descriptor} (set : job.importer? = some importer) :
    1 < job.chain.countP Descriptor.isExternal ↔
      (importer.isExternal && job.selected.isExternal) = true := by
  rw [chain, set, Option.toList_some, List.singleton_append]
  cases himporter : importer.isExternal <;> cases hselected : job.selected.isExternal <;>
    simp [himporter, hselected]

theorem countP_isExternal_le (unset : job.importer? = none) :
    job.chain.countP Descriptor.isExternal ≤ 1 := by
  rw [chain, unset]
  exact List.countP_le_length

theorem checkSupported_cases (job : Job) (tag : FormatTag) :
    (tag ∈ job.selected.formats ∧ job.checkSupported tag = .ok ()) ∨
    (tag ∉ job.selected.formats ∧ job.checkSupported tag = .error (.validation
      (.unsupportedFormat job.selected.name tag.text job.selected.formatsText))) := by
  unfold checkSupported Descriptor.supports
  by_cases htag : tag ∈ job.selected.formats
  · exact .inl ⟨htag, by simp [htag]⟩
  · exact .inr ⟨htag, by simp [htag]⟩

/-- Case distinction for the requested format. -/
theorem requestedFormat_cases (job : Job) (available : String → Bool) :
    (∃ tag, job.Requests tag ∧ job.requestedFormat = .ok tag) ∨
    ∃ e, job.Breaks available .format e ∧ job.requestedFormat = .error e := by
  unfold requestedFormat
  cases hoption : job.options.get? "format" with
  | some text =>
      rcases FormatTag.parse_cases text with ⟨hwritten, hparse⟩ | ⟨fault, hwrong, hparse⟩
      · exact .inl ⟨_, .option hoption hwritten, hparse⟩
      · exact .inr ⟨_, .formatOption hoption hwrong, hparse⟩
  | none =>
      cases hpath : FormatTag.ofPath? job.effectiveOutput with
      | some tag => exact .inl ⟨tag, .extension hoption hpath, rfl⟩
      | none =>
          unfold Descriptor.preferred?
          cases hformats : job.selected.formats with
          | nil => exact .inr ⟨_, .noFormat hoption hpath hformats, rfl⟩
          | cons tag rest => exact .inl ⟨tag, .preferred hoption hpath hformats, rfl⟩

theorem Requests.requestedFormat_eq {tag : FormatTag} (requests : job.Requests tag) :
    job.requestedFormat = .ok tag := by
  unfold requestedFormat
  cases requests with
  | @option text hset hwritten =>
      rcases FormatTag.parse_cases text with ⟨-, hparse⟩ | ⟨fault, hwrong, -⟩
      · simp only [hset, hparse]
      · exact absurd hwritten hwrong.not_isWritten
  | extension hunset hnamed => simp only [hunset, hnamed]
  | preferred hunset hunnamed hdeclared =>
      simp only [hunset, hunnamed, Descriptor.preferred?, hdeclared, List.head?_cons]

/-- The requested format is unique. -/
theorem Requests.unique {tag tag' : FormatTag} (requests : job.Requests tag)
    (requests' : job.Requests tag') : tag = tag' :=
  Except.ok.inj (requests.requestedFormat_eq.symm.trans requests'.requestedFormat_eq)

/-- The plugins of the chain are gone through in turn, and the tools of each. -/
theorem missingTool?_eq (job : Job) (available : String → Bool) :
    job.missingTool? available = job.chain.findSome? fun d =>
      (d.tools.find? fun tool => !available tool).map fun tool => (d.name, tool) := by
  unfold missingTool?
  rw [List.find?_flatMap]
  congr 1
  funext d
  rw [List.find?_map]
  rfl

theorem ready_iff {d : Descriptor} :
    ((d.tools.find? fun tool => !available tool).map fun tool => (d.name, tool)) = none ↔
      ∀ tool ∈ d.tools, available tool = true := by
  rw [Option.map_eq_none_iff, List.find?_eq_none]
  simp

/-- The tool that is missing first, with the plugin that needs it. -/
theorem missingTool?_eq_some_iff {plugin tool : String} :
    job.missingTool? available = some (plugin, tool) ↔
      ∃ before d after found rest, job.chain = before ++ d :: after ∧
        (∀ d' ∈ before, ∀ tool ∈ d'.tools, available tool = true) ∧
        d.tools = found ++ tool :: rest ∧ (∀ tool ∈ found, available tool = true) ∧
        available tool = false ∧ d.name = plugin := by
  rw [missingTool?_eq, List.findSome?_eq_some_iff]
  constructor
  · rintro ⟨before, d, after, hchain, hmissing, hready⟩
    obtain ⟨tool', hfind, hneed⟩ := Option.map_eq_some_iff.1 hmissing
    cases hneed
    obtain ⟨hmissing', found, rest, htools, hfound⟩ := List.find?_eq_some_iff_append.1 hfind
    refine ⟨before, d, after, found, rest, hchain,
      fun d' hd' => ready_iff.1 (hready d' hd'), htools,
      ?_, by simpa using hmissing', rfl⟩
    intro tool' htool'
    simpa using hfound tool' htool'
  · rintro ⟨before, d, after, found, rest, hchain, hready, htools, hfound, hmissing, rfl⟩
    refine ⟨before, d, after, hchain, ?_, fun d' hd' => ready_iff.2 (hready d' hd')⟩
    rw [Option.map_eq_some_iff]
    refine ⟨tool,
      List.find?_eq_some_iff_append.2 ⟨by simpa using hmissing, found, rest, htools, ?_⟩, rfl⟩
    intro tool' htool'
    simpa using hfound tool' htool'

theorem missingTool?_eq_none_iff :
    job.missingTool? available = none ↔ job.Meets available .tools := by
  rw [missingTool?_eq, List.findSome?_eq_none_iff, Meets]
  exact forall₂_congr fun d _ => ready_iff

theorem getD_flag_iff {table : OptionTable} {name : String} :
    (table.flag name).toOption.getD false = true ↔ table.IsOn name := by
  rw [← flag_eq_ok_true_iff]
  cases table.flag name <;> simp [Except.toOption]

theorem bare_eq_true_iff : job.bare = true ↔ job.IsBare := by
  unfold bare writesRaw IsBare
  split
  · next hraw => simp [hraw, Except.toOption]
  · next hraw => simp [hraw, getD_flag_iff]

theorem settles_supportedFormat :
    job.Settles available .supportedFormat (job.verdict available .supportedFormat) := by
  rw [verdict]
  rcases job.requestedFormat_cases available with ⟨tag, hrequests, hformat⟩ | ⟨e, -, hformat⟩
  · rw [hformat]
    rcases job.checkSupported_cases tag with ⟨hmem, hsupported⟩ | ⟨hmem, hsupported⟩
    · refine .inl ⟨hsupported, ?_⟩
      intro tag' hrequests'
      exact hrequests.unique hrequests' ▸ hmem
    · exact .inr ⟨_, hsupported, .supportedFormat hrequests hmem⟩
  · -- without a format there is nothing to support
    rw [hformat]
    refine .inl ⟨rfl, ?_⟩
    intro tag hrequests
    cases hformat.symm.trans hrequests.requestedFormat_eq

theorem settles_container :
    job.Settles available .container (job.verdict available .container) := by
  rw [verdict]
  cases hget : job.options.get? "container" with
  | none => exact .inl ⟨rfl, by simp [Meets, hget]⟩
  | some text =>
      rcases FormatTag.parse_cases text with ⟨hwritten, hparse⟩ | ⟨fault, hwrong, hparse⟩
      · exact .inl ⟨by simp only [hparse, Except.map], forall_of_eq_some hget hwritten⟩
      · exact .inr ⟨_, by simp only [hparse, Except.map], .container hget hwrong⟩

theorem settles_supportedContainer :
    job.Settles available .supportedContainer (job.verdict available .supportedContainer) := by
  rw [verdict]
  cases hget : job.options.get? "container" with
  | none => exact .inl ⟨rfl, by simp [Meets, hget]⟩
  | some text =>
      rcases FormatTag.parse_cases text with ⟨hwritten, hparse⟩ | ⟨fault, hwrong, hparse⟩
      · rcases job.checkSupported_cases (FormatTag.ofText text) with ⟨hmem, hsupported⟩ |
          ⟨hmem, hsupported⟩
        · exact .inl ⟨by simp only [hparse, supportVerdict, hsupported],
            forall_of_eq_some hget fun _ => hmem⟩
        · exact .inr ⟨_, by simp only [hparse, supportVerdict, hsupported],
            .supportedContainer hget hwritten hmem⟩
      · -- a text that is no format breaks the requirement before
        refine .inl ⟨by simp only [hparse, supportVerdict], forall_of_eq_some hget ?_⟩
        intro hwritten
        exact absurd hwritten hwrong.not_isWritten

theorem settles_tools : job.Settles available .tools (job.checkTools available) := by
  unfold checkTools
  cases hmissing : job.missingTool? available with
  | none => exact .inl ⟨rfl, missingTool?_eq_none_iff.1 hmissing⟩
  | some need =>
      obtain ⟨before, d, after, found, rest, hchain, hready, hneeds, hfound, htool, hname⟩ :=
        missingTool?_eq_some_iff.1 hmissing
      refine .inr ⟨_, rfl, ?_⟩
      rw [← hname]
      exact .tools hchain hready hneeds hfound htool

theorem settles_noContainer :
    job.Settles available .noContainer (job.verdict available .noContainer) := by
  have hcontains : (job.bare && job.options.contains "container") = true ↔
      job.IsBare ∧ job.options.get? "container" ≠ none := by
    rw [Bool.and_eq_true, bare_eq_true_iff, contains, Option.isSome_iff_ne_none]
  rw [verdict]
  split
  · next hboth =>
      obtain ⟨hbare, hset⟩ := hcontains.1 hboth
      exact .inr ⟨_, rfl, .noContainer hbare hset⟩
  · next hnot => exact .inl ⟨rfl, fun hboth => hnot (hcontains.2 hboth)⟩

theorem settles_audioPath :
    job.Settles available .audioPath (job.verdict available .audioPath) := by
  have hleft : (job.bare && job.selected.media == .video &&
      (job.options.flag "audio").toOption.getD false && job.rawAudio?.isNone) = true ↔
      job.IsBare ∧ job.selected.media = .video ∧ job.options.IsOn "audio" ∧
        job.rawAudio? = none := by
    simp only [Bool.and_eq_true, bare_eq_true_iff, beq_iff_eq, getD_flag_iff,
      Option.isNone_iff_eq_none, and_assoc]
  rw [verdict]
  split
  · next hall =>
      obtain ⟨hbare, hvideo, haudio, hunset⟩ := hleft.1 hall
      exact .inr ⟨_, rfl, .audioPath hbare hvideo haudio hunset⟩
  · next hnot => exact .inl ⟨rfl, fun hall => hnot (hleft.2 hall)⟩

/-- Each check settles its requirement. -/
theorem settles_verdict (job : Job) (available : String → Bool) (r : Requirement) :
    job.Settles available r (job.verdict available r) := by
  cases r with
  | optionNames => exact settles_optionNames
  | number name limit => exact settles_number name limit
  | switch name => exact settles_switch name
  | decoder =>
      apply settles_import
      · intro hright importer himporter
        exact Decidable.not_not.1 (hright importer himporter)
      · exact fun importer himporter hwrong => .decoder himporter hwrong
  | encoder =>
      apply settles_import
      · intro hright importer himporter
        exact Decidable.not_not.1 (hright importer himporter)
      · exact fun importer himporter hwrong => .encoder himporter hwrong
  | sameMedia =>
      apply settles_import
      · intro hright importer himporter
        exact Decidable.not_not.1 (hright importer himporter)
      · exact fun importer himporter hwrong => .sameMedia himporter hwrong
  | oneTool =>
      apply settles_import
      · intro hright
        rw [Meets]
        cases himporter : job.importer? with
        | none => exact countP_isExternal_le himporter
        | some importer =>
            exact Nat.le_of_not_lt fun h =>
              hright importer himporter ((countP_isExternal himporter).1 h)
      · exact fun importer himporter hwrong =>
          .oneTool himporter ((countP_isExternal himporter).2 hwrong)
  | format =>
      rw [verdict]
      rcases job.requestedFormat_cases available with ⟨tag, hrequests, hformat⟩ |
        ⟨e, hbreaks, hformat⟩
      · exact .inl ⟨by rw [hformat]; rfl, tag, hrequests⟩
      · exact .inr ⟨e, by rw [hformat]; rfl, hbreaks⟩
  | supportedFormat => exact settles_supportedFormat
  | container => exact settles_container
  | supportedContainer => exact settles_supportedContainer
  | tools => exact settles_tools
  | noContainer => exact settles_noContainer
  | audioPath => exact settles_audioPath

/-! ## The first violated requirement -/

/-- A violated requirement is not met. -/
theorem Breaks.not_meets {r : Requirement} (breaks : job.Breaks available r e) :
    ¬ job.Meets available r := by
  cases breaks with
  | optionNames hmem hrefused _ => exact fun hmeets => hrefused (hmeets _ hmem)
  | number hset hwrong =>
      intro hmeets
      obtain ⟨n, hwrites, hpositive, hlimit⟩ := hmeets _ hset
      exact hwrong.not_writes hpositive hlimit hwrites
  | switch hset hwrong =>
      intro hmeets
      obtain ⟨b, hword⟩ := hmeets _ hset
      exact hwrong b hword
  | decoder hset hwrong => exact fun hmeets => hwrong (hmeets _ hset)
  | encoder hset hwrong => exact fun hmeets => hwrong (hmeets _ hset)
  | sameMedia hset hwrong => exact fun hmeets => hwrong (hmeets _ hset)
  | oneTool hset hwrong => exact Nat.not_le_of_lt hwrong
  | formatOption hset hwrong =>
      rintro ⟨tag, hrequests⟩
      cases hrequests with
      | option hset' hwritten =>
          obtain rfl := Option.some.inj (hset.symm.trans hset')
          exact hwrong.not_isWritten hwritten
      | extension hunset => cases hunset.symm.trans hset
      | preferred hunset => cases hunset.symm.trans hset
  | noFormat hunset hunnamed hundeclared =>
      rintro ⟨tag, hrequests⟩
      cases hrequests with
      | option hset => cases hunset.symm.trans hset
      | extension _ hnamed => cases hunnamed.symm.trans hnamed
      | preferred _ _ hdeclared => cases hundeclared.symm.trans hdeclared
  | supportedFormat hrequested hwrong => exact fun hmeets => hwrong (hmeets _ hrequested)
  | container hset hwrong => exact fun hmeets => hwrong.not_isWritten (hmeets _ hset)
  | supportedContainer hset hwritten hwrong => exact fun hmeets => hwrong (hmeets _ hset hwritten)
  | @tools before after d tool found rest hchain _ hneeds _ hmissing =>
      intro hmeets
      have havailable := hmeets d (by rw [hchain]; simp) tool (by rw [hneeds]; simp)
      cases hmissing.symm.trans havailable
  | noContainer hbare hset => exact fun hmeets => hmeets ⟨hbare, hset⟩
  | audioPath hbare hvideo haudio hunset =>
      exact fun hmeets => hmeets ⟨hbare, hvideo, haudio, hunset⟩

/-- The failure of a violated requirement is unique. -/
theorem Breaks.unique {r : Requirement} {e' : Error} (breaks : job.Breaks available r e)
    (breaks' : job.Breaks available r e') : e = e' := by
  cases breaks with
  | optionNames hmem hrefused hfirst =>
      cases breaks' with
      | optionNames hmem' hrefused' hfirst' =>
          rw [Utf8.eq_of_encode_le (hfirst _ hmem' hrefused') (hfirst' _ hmem hrefused)]
  | number hset hwrong =>
      cases breaks' with
      | number hset' hwrong' =>
          obtain rfl := Option.some.inj (hset.symm.trans hset')
          rw [hwrong.unique hwrong']
  | switch hset =>
      cases breaks' with
      | switch hset' => rw [Option.some.inj (hset.symm.trans hset')]
  | decoder hset =>
      cases breaks' with
      | decoder hset' => rw [Option.some.inj (hset.symm.trans hset')]
  | encoder hset =>
      cases breaks' with
      | encoder hset' => rw [Option.some.inj (hset.symm.trans hset')]
  | sameMedia hset =>
      cases breaks' with
      | sameMedia hset' => rw [Option.some.inj (hset.symm.trans hset')]
  | oneTool hset =>
      cases breaks' with
      | oneTool hset' => rw [Option.some.inj (hset.symm.trans hset')]
  | formatOption hset hwrong =>
      cases breaks' with
      | formatOption hset' hwrong' =>
          obtain rfl := Option.some.inj (hset.symm.trans hset')
          rw [hwrong.unique hwrong']
      | noFormat hunset => cases hunset.symm.trans hset
  | noFormat hunset =>
      cases breaks' with
      | formatOption hset => cases hunset.symm.trans hset
      | noFormat => rfl
  | supportedFormat hrequested =>
      cases breaks' with
      | supportedFormat hrequested' => rw [hrequested.unique hrequested']
  | container hset hwrong =>
      cases breaks' with
      | container hset' hwrong' =>
          obtain rfl := Option.some.inj (hset.symm.trans hset')
          rw [hwrong.unique hwrong']
  | supportedContainer hset =>
      cases breaks' with
      | supportedContainer hset' => rw [Option.some.inj (hset.symm.trans hset')]
  | tools hchain hready hneeds hthere hmissing =>
      cases breaks' with
      | tools hchain' hready' hneeds' hthere' hmissing' =>
          have hfirst := missingTool?_eq_some_iff.2
            ⟨_, _, _, _, _, hchain, hready, hneeds, hthere, hmissing, rfl⟩
          have hfirst' := missingTool?_eq_some_iff.2
            ⟨_, _, _, _, _, hchain', hready', hneeds', hthere', hmissing', rfl⟩
          obtain ⟨hname, htool⟩ := Prod.mk.inj (Option.some.inj (hfirst.symm.trans hfirst'))
          rw [hname, htool]
  | noContainer => cases breaks'; rfl
  | audioPath => cases breaks'; rfl

theorem verdict_eq_ok_iff {r : Requirement} :
    job.verdict available r = .ok () ↔ job.Meets available r := by
  rcases settles_verdict job available r with ⟨hverdict, hmeets⟩ | ⟨e, hverdict, hbreaks⟩
  · simp [hverdict, hmeets]
  · simp [hverdict, hbreaks.not_meets]

theorem verdict_eq_error_iff {r : Requirement} :
    job.verdict available r = .error e ↔ job.Breaks available r e := by
  rcases settles_verdict job available r with ⟨hverdict, hmeets⟩ | ⟨e', hverdict, hbreaks⟩
  · simp only [hverdict, reduceCtorEq, false_iff]
    exact fun hbreaks => hbreaks.not_meets hmeets
  · rw [hverdict, Except.error.injEq]
    constructor
    · rintro rfl
      exact hbreaks
    · exact hbreaks.unique

/-- A check fails only where a requirement is broken. -/
theorem exists_breaks (failed : job.check available = .error e) :
    ∃ r, job.Breaks available r e := by
  rw [check_eq, forM_eq_error_iff] at failed
  obtain ⟨before, r, after, -, -, hfailed⟩ := failed
  exact ⟨r, verdict_eq_error_iff.1 hfailed⟩

/-- **Validation is exact, and the first requirement that is broken decides.** -/
theorem validate_finds_first_broken (tools : ToolLocator) (t : FileTree) :
    ((job.validate tools t).result = .ok () ↔
      ∀ r ∈ Requirement.inOrder, job.Meets (tools.isAvailable t) r) ∧
    ∀ e, (job.validate tools t).result = .error e ↔
      ∃ before r after, Requirement.inOrder = before ++ r :: after ∧
        (∀ r' ∈ before, job.Meets (tools.isAvailable t) r') ∧
        job.Breaks (tools.isAvailable t) r e := by
  have hresult : (job.validate tools t).result = job.check (tools.isAvailable t) := rfl
  rw [hresult, check_eq]
  constructor
  · rw [forM_eq_ok_iff]
    exact forall₂_congr fun r _ => verdict_eq_ok_iff
  · intro e
    rw [forM_eq_error_iff]
    simp only [verdict_eq_ok_iff, verdict_eq_error_iff]

/-- A job with a `raw` option that is no truth value, plugins of different media and no supported
format. -/
def sampleJob : Job where
  input := "clip.avi"
  output := "clip.ogg"
  selected :=
    { name := "bare", kind := .encoder, media := .video, formats := [⟨"RAW"⟩], flags := 1 }
  importer? := some { name := "vorbis", kind := .decoder, media := .audio, formats := [⟨"OGG"⟩] }
  options := { entries := [("frame_size", "+16"), ("raw", "maybe")] }

/-- The option is found to be wrong before all else. -/
theorem validate_finds_first_broken_sample :
    (sampleJob.validate {} {}).result = .error (.configuration (.notBool "raw" "maybe")) := by
  refine ((validate_finds_first_broken {} {}).2 _).2 ?_
  refine ⟨[.optionNames, .number "frame_size" UInt32.size, .number "tool_timeout_ms" UInt64.size],
    .switch "raw", _, rfl, ?_, .switch (by decide) ?_⟩
  · intro r hr
    simp only [List.mem_cons, List.not_mem_nil, or_false] at hr
    rcases hr with rfl | rfl | rfl
    · have hall : ∀ name ∈ sampleJob.options.names, name ∈ OptionTable.generic := by decide
      exact fun name hname => .inl (hall name hname)
    · intro text htext
      cases htext
      have hdigits : ∀ d ∈ ['1', '6'], d.isDigit = true := List.all_eq_true.1 rfl
      exact ⟨16, ⟨['1', '6'], by simp, hdigits, .inr rfl, by decide⟩, by decide, by decide⟩
    · intro text htext
      cases htext
  · intro b
    unfold IsWord
    cases b <;> decide

end Job

end Transcode
