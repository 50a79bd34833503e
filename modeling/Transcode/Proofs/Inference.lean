import Transcode.Cli.Plan
import Transcode.Proofs.OptionTables
import Transcode.Proofs.Registrations
import Transcode.Proofs.Requirements
/-!
# Plugins that are inferred

A command line need not name its plugins. Inference agrees with validation, although the two are
separate algorithms: an inferred importer never breaks the chain and has its tools, and an inferred
exporter is the first encoder for the output format that has its tools, if any has
(`Cli.plan_infers_fitting`). Plugins of a registry stand in the table of their kind
(`Registry.Reachable.kind_eq`), and `Cli.Plans` is the derivation of a job.
-/

set_option autoImplicit false

namespace Transcode

/-! ## Attempts -/

/-- An attempt that succeeds is made of two that do. -/
theorem Attempt.bind_result_eq_ok_iff {α β : Type} {x : Attempt α} {f : α → Attempt β} {b : β} :
    (x >>= f).result = .ok b ↔ ∃ a, x.result = .ok a ∧ (f a).result = .ok b := by
  show (x.andThen f).result = .ok b ↔ _
  unfold andThen
  cases x.result with
  | error e => simp
  | ok a => simp

namespace Cli

variable {σ : Type} {registry : Registry σ} {tools : ToolLocator} {t : FileTree}
  {arguments : Arguments} {profile : Profile} {job : Job} {available : String → Bool}
  {format : FormatTag} {d exporter : Descriptor}

/-! ## Options -/

theorem optionTable_eq_setAll (profile : Profile) :
    profile.optionTable = OptionTable.setAll (fun entry => Profile.pair entry.1 entry.2) .empty
      profile.options.entries :=
  rfl

/-- The options of a job are put together from those of the profile, those of the command line and
the switch. -/
theorem mergedOptions_eq_ok_iff {options : OptionTable} :
    mergedOptions arguments profile = .ok options ↔
      ∃ fromProfile fromWords, profile.optionTable = .ok fromProfile ∧
        OptionTable.ofPairs arguments.options = .ok fromWords ∧
        options =
          if arguments.keepPartial then (fromProfile.merge fromWords).set "keep_partial" "true"
          else fromProfile.merge fromWords := by
  unfold mergedOptions
  cases hprofile : profile.optionTable with
  | error e => simp [bind, Except.bind]
  | ok fromProfile =>
      cases hwords : OptionTable.ofPairs arguments.options with
      | error e => simp [bind, Except.bind]
      | ok fromWords =>
          simp only [bind, Except.bind, pure, Except.pure, Except.ok.injEq]
          constructor
          · rintro rfl
            exact ⟨_, _, rfl, rfl, rfl⟩
          · rintro ⟨_, _, rfl, rfl, rfl⟩
            rfl

/-! ## Exporters -/

/-- A plugin whose tools are all there. -/
def IsReady (available : String → Bool) (d : Descriptor) : Prop :=
  ∀ tool ∈ d.tools, available tool = true

theorem toolsReady_eq_true_iff : toolsReady available d = true ↔ IsReady available d :=
  List.all_eq_true

/-- The first plugin with its tools, or the first one, where none has them. -/
inductive IsFirstReady (available : String → Bool) (found : List Descriptor) :
    Descriptor → Prop where
  | ready {before after : List Descriptor} {d : Descriptor} (split : found = before ++ d :: after)
      (unready : ∀ d' ∈ before, ¬ IsReady available d') (ready : IsReady available d) :
      IsFirstReady available found d
  | first {d : Descriptor} {rest : List Descriptor} (split : found = d :: rest)
      (unready : ∀ d' ∈ found, ¬ IsReady available d') : IsFirstReady available found d

theorem isFirstReady_of_inferExporter
    (h : (inferExporter registry available format).result = .ok d) :
    IsFirstReady available (registry.resolveForFormat .encoder format).value d := by
  unfold inferExporter at h
  rw [Attempt.bind_result_eq_ok_iff] at h
  obtain ⟨_, ⟨⟩, h⟩ := h
  generalize (registry.resolveForFormat .encoder format).value = found at h ⊢
  split at h
  · cases h
  · next d' hchosen =>
      rw [Attempt.bind_result_eq_ok_iff] at h
      obtain ⟨_, -, h⟩ := h
      cases h
      -- the plugin chosen is the first with its tools, and the head only where there is none
      cases hready : found.find? (toolsReady available) with
      | some ready =>
          rw [hready, Option.some_or] at hchosen
          cases hchosen
          obtain ⟨hd, before, after, hsplit, hbefore⟩ := List.find?_eq_some_iff_append.1 hready
          refine .ready hsplit ?_ (toolsReady_eq_true_iff.1 hd)
          intro d' hd' hready'
          have hunready := hbefore d' hd'
          rw [toolsReady_eq_true_iff.2 hready'] at hunready
          cases hunready
      | none =>
          rw [hready, Option.none_or] at hchosen
          obtain ⟨rest, hsplit⟩ := List.head?_eq_some_iff.1 hchosen
          refine .first hsplit ?_
          intro d' hd' hready'
          exact List.find?_eq_none.1 hready d' hd' (toolsReady_eq_true_iff.2 hready')

theorem IsFirstReady.mem {found : List Descriptor} (first : IsFirstReady available found d) :
    d ∈ found := by
  cases first with
  | ready hsplit =>
      rw [hsplit]
      simp
  | first hsplit =>
      rw [hsplit]
      exact List.mem_cons_self

/-- Where the chosen plugin lacks a tool, all do. -/
theorem IsFirstReady.unready {found : List Descriptor} (first : IsFirstReady available found d)
    (unready : ¬ IsReady available d) : ∀ d' ∈ found, ¬ IsReady available d' := by
  cases first with
  | ready _ _ hready => exact absurd hready unready
  | first _ hall => exact hall

/-- The format an exporter is inferred from: the `format` option, else the extension of the output.
-/
inductive Suggests (job : Job) : FormatTag → Prop where
  | option {text : String} {format : FormatTag} (set : job.options.get? "format" = some text)
      (read : FormatTag.parse text = .ok format) : Suggests job format
  | extension {format : FormatTag} (unset : job.options.get? "format" = none)
      (named : FormatTag.ofPath? job.output = some format) : Suggests job format

theorem suggests_of_outputFormat (h : outputFormat job.options job.output = .ok format) :
    Suggests job format := by
  unfold outputFormat at h
  split at h
  · next text hset => exact .option hset h
  · next hunset =>
      split at h
      · next tag hnamed =>
          cases h
          exact .extension hunset hnamed
      · cases h

/-- Unless audio goes to a path of its own, the format of the job is the one that is suggested. -/
theorem Suggests.requestedFormat_eq (suggests : Suggests job format)
    (same : ¬ (job.options.get? "format" = none ∧ job.rawAudio? ≠ none ∧
      job.selected.media = .audio)) :
    job.requestedFormat = .ok format := by
  cases suggests with
  | option hset hread => simp only [Job.requestedFormat, hset, hread]
  | extension hunset hnamed =>
      -- the job goes by the extension of what it writes, which is the output in all other cases
      have houtput : job.effectiveOutput = job.output := by
        unfold Job.effectiveOutput
        split
        · next path hset haudio => exact absurd ⟨hunset, by simp [hset], haudio⟩ same
        · rfl
      simp only [Job.requestedFormat, hunset, houtput, hnamed]

/-! ## Importers -/

/-- A decoder that may stand in front of an exporter, and has its tools. -/
structure Suits (available : String → Bool) (exporter d : Descriptor) : Prop where
  sameMedia : d.media = exporter.media
  oneTool : ¬ (exporter.isExternal = true ∧ d.isExternal = true)
  ready : IsReady available d

theorem suits_eq_true_iff : suits available exporter d = true ↔ Suits available exporter d := by
  simp only [suits, Bool.and_eq_true, decide_eq_true_eq, toolsReady_eq_true_iff, Bool.not_eq_true',
    Bool.eq_false_iff]
  constructor
  · rintro ⟨⟨hmedia, htools⟩, hready⟩
    exact ⟨hmedia, fun h => htools (Bool.and_eq_true_iff.2 h), hready⟩
  · rintro ⟨hmedia, htools, hready⟩
    exact ⟨⟨hmedia, fun h => htools (Bool.and_eq_true_iff.1 h)⟩, hready⟩

theorem suits_of_inferImporter {input : String}
    (h : (inferImporter registry available exporter input).result = .ok (some d)) :
    d ∈ registry.descriptors .decoder ∧ Suits available exporter d := by
  unfold inferImporter at h
  split at h
  · cases h
  · next format hformat =>
      rw [Attempt.bind_result_eq_ok_iff] at h
      obtain ⟨_, ⟨⟩, h⟩ := h
      split at h
      · rw [Attempt.bind_result_eq_ok_iff] at h
        obtain ⟨_, -, ⟨⟩⟩ := h
      · next d' hfind =>
          rw [Attempt.bind_result_eq_ok_iff] at h
          obtain ⟨_, -, h⟩ := h
          cases h
          refine ⟨?_, suits_eq_true_iff.1 (List.find?_some hfind)⟩
          exact (Registry.mem_suited.1 (List.mem_of_find?_eq_some hfind)).1

/-! ## Plans -/

/-- The profile that goes with a command line. -/
def Loads (t : FileTree) (arguments : Arguments) (profile : Profile) : Prop :=
  match arguments.profile? with
  | some path => (Profile.load t path).result = .ok profile
  | none => profile = {}

/-- Derivation of a job from arguments and a profile. -/
structure Plans (registry : Registry σ) (tools : ToolLocator) (t : FileTree) (arguments : Arguments)
    (profile : Profile) (job : Job) : Prop where
  output_eq : arguments.output? = some job.output
  options_eq : mergedOptions arguments profile = .ok job.options
  exporter_eq : (chooseExporter registry (tools.isAvailable t) job.options job.output
    (arguments.exporter?.or profile.exporter?)).result = .ok job.selected
  importer_eq : (chooseImporter registry (tools.isAvailable t) job.selected job.input
    (arguments.importer?.or profile.importer?)).result = .ok job.importer?

theorem eq_some_of_demand {fault : ConfigurationFault} {given : Option String} {value : String}
    (h : demand fault given = .ok value) : given = some value := by
  cases given with
  | none => cases h
  | some _ =>
      cases h
      rfl

/-- The plan leads to the jobs that come about in this way and take the path for raw audio from the
command line or the profile. -/
theorem plan_eq_ok_iff (loads : Loads t arguments profile) :
    (plan registry tools t arguments).result = .ok job ↔
      arguments.input? = some job.input ∧ Plans registry tools t arguments profile job ∧
        job.rawAudio? = arguments.rawAudio?.or profile.rawAudio? := by
  unfold plan
  -- with or without a profile, the rest of the plan is the same
  extract_lets available rest
  refine Iff.trans (b := (rest profile).result = .ok job) ?_ ⟨?_, ?_⟩
  · unfold Loads at loads
    cases hpath : arguments.profile? with
    | some path =>
        simp only [hpath] at loads ⊢
        rw [Attempt.bind_result_eq_ok_iff]
        constructor
        · rintro ⟨profile', hloaded, hrest⟩
          cases hloaded.symm.trans loads
          exact hrest
        · exact fun hrest => ⟨profile, loads, hrest⟩
    | none =>
        simp only [hpath] at loads ⊢
        rw [Attempt.bind_result_eq_ok_iff, loads]
        constructor
        · rintro ⟨_, ⟨⟩, hrest⟩
          exact hrest
        · exact fun hrest => ⟨{}, rfl, hrest⟩
  · intro hrest
    obtain ⟨input, hinput, hrest⟩ := Attempt.bind_result_eq_ok_iff.1 hrest
    obtain ⟨output, houtput, hrest⟩ := Attempt.bind_result_eq_ok_iff.1 hrest
    obtain ⟨options, hoptions, hrest⟩ := Attempt.bind_result_eq_ok_iff.1 hrest
    obtain ⟨exporter, hexporter, hrest⟩ := Attempt.bind_result_eq_ok_iff.1 hrest
    obtain ⟨importer?, himporter, hrest⟩ := Attempt.bind_result_eq_ok_iff.1 hrest
    cases hrest
    exact ⟨eq_some_of_demand hinput,
      ⟨eq_some_of_demand houtput, hoptions, hexporter, himporter⟩, rfl⟩
  · obtain ⟨input, output, selected, importer?, rawAudio?, options⟩ := job
    rintro ⟨hinput, ⟨houtput, hoptions, hexporter, himporter⟩, rfl⟩
    refine Attempt.bind_result_eq_ok_iff.2 ⟨input, by rw [hinput]; rfl, ?_⟩
    refine Attempt.bind_result_eq_ok_iff.2 ⟨output, by rw [houtput]; rfl, ?_⟩
    refine Attempt.bind_result_eq_ok_iff.2 ⟨options, hoptions, ?_⟩
    refine Attempt.bind_result_eq_ok_iff.2 ⟨selected, hexporter, ?_⟩
    exact Attempt.bind_result_eq_ok_iff.2 ⟨importer?, himporter, rfl⟩

theorem plans_of_plan (loads : Loads t arguments profile)
    (planned : (plan registry tools t arguments).result = .ok job) :
    Plans registry tools t arguments profile job :=
  ((plan_eq_ok_iff loads).1 planned).2.1

variable {e : Error}

/-- The exporter is an encoder, whether it was named or inferred. -/
theorem Plans.selected_kind (plans : Plans registry tools t arguments profile job)
    (reachable : registry.Reachable) : job.selected.kind = .encoder := by
  apply reachable.kind_of_mem
  have hexporter := plans.exporter_eq
  unfold chooseExporter at hexporter
  split at hexporter
  · exact Registry.mem_of_resolve hexporter
  · obtain ⟨format, -, hinferred⟩ := Attempt.bind_result_eq_ok_iff.1 hexporter
    exact (Registry.mem_suited.1 (isFirstReady_of_inferExporter hinferred).mem).1

/-- An importer that was inferred is a decoder that suits the exporter. -/
theorem Plans.importer_suits (plans : Plans registry tools t arguments profile job)
    (reachable : registry.Reachable) (unnamed : arguments.importer?.or profile.importer? = none)
    (set : job.importer? = some d) :
    d.kind = .decoder ∧ Suits (tools.isAvailable t) job.selected d := by
  have himporter := plans.importer_eq
  rw [unnamed, set] at himporter
  obtain ⟨hmem, hsuits⟩ := suits_of_inferImporter himporter
  exact ⟨reachable.kind_of_mem hmem, hsuits⟩

/-- A failure of the chain is not found behind an importer that suits. -/
theorem not_incompatible {importer exporter : String} {fault : ChainFault}
    (selected : job.selected.kind = .encoder)
    (suited : ∀ d, job.importer? = some d → d.kind = .decoder ∧ Suits available job.selected d) :
    job.check available ≠ .error (.validation (.incompatibleChain importer exporter fault)) := by
  intro hfailed
  -- only four requirements fail in this way, and each of them is met
  obtain ⟨r, hbreaks⟩ := Job.exists_breaks hfailed
  cases hbreaks with
  | decoder hset hwrong => exact hwrong (suited _ hset).1
  | encoder _ hwrong => exact hwrong selected
  | sameMedia hset hwrong => exact hwrong (suited _ hset).2.sameMedia
  | oneTool hset hwrong =>
      rw [Job.countP_isExternal hset, Bool.and_eq_true] at hwrong
      exact (suited _ hset).2.oneTool ⟨hwrong.2, hwrong.1⟩

/-- A tool that is reported is missing. -/
theorem missing_of_check {plugin tool : String}
    (failed : job.check available = .error (.validation (.missingTool plugin tool))) :
    available tool = false := by
  obtain ⟨r, hbreaks⟩ := Job.exists_breaks failed
  cases hbreaks with
  | tools _ _ _ _ hmissing => exact hmissing

theorem IsReady.not_mem {tool : String} (ready : IsReady available d)
    (missing : available tool = false) :
    tool ∉ d.tools := by
  intro hmem
  cases missing.symm.trans (ready tool hmem)

/-- **A job with inferred plugins fits.** An inferred importer never breaks the chain and has its
tools. An inferred exporter is an encoder for the format it was inferred from, the first with its
tools or, where none has them, the first; and that format is the requested format of the job, unless
audio goes to a path of its own and the format was taken from the extension. -/
theorem plan_infers_fitting (reachable : registry.Reachable) (loads : Loads t arguments profile)
    (planned : (plan registry tools t arguments).result = .ok job) :
    (arguments.importer?.or profile.importer? = none →
      (∀ importer exporter fault, (job.validate tools t).result ≠
        .error (.validation (.incompatibleChain importer exporter fault))) ∧
      ∀ plugin tool,
        (job.validate tools t).result = .error (.validation (.missingTool plugin tool)) →
        ∀ importer, job.importer? = some importer → tool ∉ importer.tools) ∧
    (arguments.exporter?.or profile.exporter? = none →
      ∃ format, arguments.output? = some job.output ∧ Suggests job format ∧
        job.selected.kind = .encoder ∧ format ∈ job.selected.formats ∧
        IsFirstReady (tools.isAvailable t) (registry.resolveForFormat .encoder format).value
          job.selected ∧
        (∀ plugin tool,
          (job.validate tools t).result = .error (.validation (.missingTool plugin tool)) →
          tool ∈ job.selected.tools → ∀ d ∈ registry.descriptors .encoder, format ∈ d.formats →
            ¬ IsReady (tools.isAvailable t) d) ∧
        (¬ (job.options.get? "format" = none ∧ job.rawAudio? ≠ none ∧ job.selected.media = .audio) →
          job.requestedFormat = .ok format)) := by
  have hplans := plans_of_plan loads planned
  have hselected := hplans.selected_kind reachable
  have hresult : (job.validate tools t).result = job.check (tools.isAvailable t) := rfl
  rw [hresult]
  constructor
  · intro hunnamed
    have hsuited : ∀ d, job.importer? = some d →
        d.kind = .decoder ∧ Suits (tools.isAvailable t) job.selected d :=
      fun d hset => hplans.importer_suits reachable hunnamed hset
    constructor
    · intro importer exporter fault
      exact not_incompatible hselected hsuited
    · intro plugin tool hfailed importer hset
      exact (hsuited importer hset).2.ready.not_mem (missing_of_check hfailed)
  · intro hunnamed
    have hexporter := hplans.exporter_eq
    rw [hunnamed] at hexporter
    obtain ⟨format, hformat, hinferred⟩ := Attempt.bind_result_eq_ok_iff.1 hexporter
    have hsuggests := suggests_of_outputFormat hformat
    have hfirst := isFirstReady_of_inferExporter hinferred
    refine ⟨format, hplans.output_eq, hsuggests, hselected, (Registry.mem_suited.1 hfirst.mem).2,
      hfirst, ?_, hsuggests.requestedFormat_eq⟩
    intro plugin tool hfailed htool d hd hsupports
    apply hfirst.unready
    · intro hready
      exact hready.not_mem (missing_of_check hfailed) htool
    · exact Registry.mem_suited.2 ⟨hd, hsupports⟩

/-! ## Two encoders for one format -/

/-- An encoder that needs a tool. -/
def studio : Descriptor :=
  { name := "studio", kind := .encoder, media := .video, formats := [⟨"AVI"⟩], tools := ["mixer"]
    flags := 2 }

/-- An encoder that does not. -/
def plain : Descriptor :=
  { name := "plain", kind := .encoder, media := .video, formats := [⟨"RAW"⟩, ⟨"AVI"⟩] }

/-- A decoder. -/
def reader : Descriptor :=
  { name := "reader", kind := .decoder, media := .video, formats := [⟨"DIVX"⟩] }

def sampleRegistry : Registry Unit :=
  (((Registry.empty.register studio (.ok ())).state.register plain (.ok ())).state.register reader
    (.ok ())).state

/-- No plugin is named. -/
def sampleArguments : Arguments :=
  { input? := some "clip.divx", output? := some "clip.avi" }

theorem suited_encoder_sample : sampleRegistry.suited .encoder ⟨"AVI"⟩ = [studio, plain] := by
  have hfound : (sampleRegistry.descriptors .encoder).filterMap (fun d =>
      (Registry.suitability? ⟨"AVI"⟩ d).map fun s => (s, d)) =
        [(⟨0, 1, 0, "studio"⟩, studio), (⟨1, 0, 0, "plain"⟩, plain)] := by decide +kernel
  simp only [Registry.suited, hfound]
  rw [List.mergeSort_of_pairwise (by decide)]
  rfl

theorem suited_decoder_sample : sampleRegistry.suited .decoder ⟨"DIVX"⟩ = [reader] := by
  have hfound : (sampleRegistry.descriptors .decoder).filterMap (fun d =>
      (Registry.suitability? ⟨"DIVX"⟩ d).map fun s => (s, d)) =
        [(⟨0, 0, 0, "reader"⟩, reader)] := by decide +kernel
  simp only [Registry.suited, hfound]
  rw [List.mergeSort_singleton]
  rfl

theorem plan_sample : (plan sampleRegistry {} {} sampleArguments).result =
    .ok { input := "clip.divx", output := "clip.avi", selected := plain,
          importer? := some reader } := by
  have houtput : FormatTag.ofPath? "clip.avi" = some ⟨"AVI"⟩ := by decide +kernel
  have hinput : FormatTag.ofPath? "clip.divx" = some ⟨"DIVX"⟩ := by decide +kernel
  have hexporter : (chooseExporter sampleRegistry (ToolLocator.isAvailable {} {}) {} "clip.avi"
      none).result = .ok plain := by
    refine Attempt.bind_result_eq_ok_iff.2 ⟨⟨"AVI"⟩, ?_, ?_⟩
    · show outputFormat {} "clip.avi" = .ok ⟨"AVI"⟩
      rw [outputFormat, houtput]
      rfl
    · refine Attempt.bind_result_eq_ok_iff.2 ⟨_, congrArg Except.ok suited_encoder_sample, ?_⟩
      have hready : [studio, plain].find? (toolsReady (ToolLocator.isAvailable {} {})) =
          some plain := by
        decide +kernel
      rw [hready]
      rfl
  have himporter : (chooseImporter sampleRegistry (ToolLocator.isAvailable {} {}) plain "clip.divx"
      none).result = .ok (some reader) := by
    show (inferImporter _ _ _ _).result = _
    rw [inferImporter, hinput]
    refine Attempt.bind_result_eq_ok_iff.2 ⟨_, congrArg Except.ok suited_decoder_sample, ?_⟩
    have hsuits : [reader].find? (suits (ToolLocator.isAvailable {} {}) plain) = some reader := by
      decide +kernel
    rw [hsuits]
    rfl
  refine Attempt.bind_result_eq_ok_iff.2 ⟨{}, rfl, ?_⟩
  refine Attempt.bind_result_eq_ok_iff.2 ⟨"clip.divx", rfl, ?_⟩
  refine Attempt.bind_result_eq_ok_iff.2 ⟨"clip.avi", rfl, ?_⟩
  refine Attempt.bind_result_eq_ok_iff.2 ⟨{}, rfl, ?_⟩
  refine Attempt.bind_result_eq_ok_iff.2 ⟨plain, hexporter, ?_⟩
  exact Attempt.bind_result_eq_ok_iff.2 ⟨some reader, himporter, rfl⟩

/-- The encoder without a tool is inferred, for the format that the output is named for. -/
theorem plan_infers_fitting_sample : ∃ job format,
    (plan sampleRegistry {} {} sampleArguments).result = .ok job ∧ job.importer? = some reader ∧
      (∀ importer exporter fault, (job.validate {} {}).result ≠
        .error (.validation (.incompatibleChain importer exporter fault))) ∧
      IsFirstReady (ToolLocator.isAvailable {} {})
        (sampleRegistry.resolveForFormat .encoder format).value job.selected ∧
      job.requestedFormat = .ok format := by
  have hreachable : sampleRegistry.Reachable :=
    ((Registry.Reachable.empty.register _ _).register _ _).register _ _
  obtain ⟨himported, hexported⟩ := plan_infers_fitting hreachable
    (show Loads {} sampleArguments {} from rfl) plan_sample
  obtain ⟨format, -, -, -, -, hfirst, -, hformat⟩ := hexported rfl
  exact ⟨_, format, plan_sample, rfl, (himported rfl).1, hfirst, hformat (by simp)⟩

end Cli

end Transcode
