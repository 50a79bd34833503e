import Transcode.Proofs.FixedFrames
import Transcode.Proofs.OptionTables
import Transcode.Proofs.SteadyRun
import Transcode.Proofs.ValidJobs
/-!
# Jobs that copy their input

Raw video and raw audio are handed on as they are, so a job from such a plugin to its like copies
the input (`Job.Copies`). The frame size decides how the input is cut, and nothing else: jobs that
differ in it alone (`Job.Resized`) pass or fail the same checks, and where they pass, all of them
leave the same files, with the bytes of the input as the output (`Cli.copying_ignores_frame_size`).
-/

set_option autoImplicit false

namespace Transcode

/-! ## Frames of a fixed size -/

namespace Splitting

variable {size : Nat} {data : Bytes}

/-- Frames that a file is cut into: numbered from one on, as many as it takes, all of them of the
same size but maybe the last one, and together the file. -/
structure IsCut (size : Nat) (data : Bytes) (frames : List Frame) : Prop where
  count : frames.length = (data.length + size - 1) / size
  numbers : frames.map Frame.sequence = List.range' 1 frames.length
  full : ∀ frame ∈ frames.dropLast, frame.size = size
  last : ∀ frame, frames.getLast? = some frame → 1 ≤ frame.size ∧ frame.size ≤ size
  whole : frames.flatMap Frame.data = data

theorem isCut_pieces (positive : 0 < size) (data : Bytes) :
    IsCut size data (Frame.number 1 (pieces size data)) where
  count := by rw [Frame.length_number, length_pieces]
  numbers := by rw [Frame.map_sequence_number, Frame.length_number]
  full frame mem := by
    have hmem := List.mem_map_of_mem (f := Frame.data) mem
    rw [List.map_dropLast, Frame.map_data_number] at hmem
    exact length_of_mem_dropLast positive hmem
  last frame hlast := by
    have hmem := List.mem_map_of_mem (f := Frame.data) (List.mem_of_getLast? hlast)
    rw [Frame.map_data_number] at hmem
    have hle := length_le_of_mem_pieces hmem
    exact ⟨List.length_pos_iff.2 (ne_nil_of_mem_pieces positive hmem),
      Nat.le_trans hle (Nat.min_le_left _ _)⟩
  whole := by rw [Frame.flatMap_data_number, flatten_pieces positive]

theorem pieces_eq_nil_iff (positive : 0 < size) : pieces size data = [] ↔ data = [] := by
  constructor
  · intro hnil
    rw [← flatten_pieces positive data, hnil, List.flatten_nil]
  · rintro rfl
    exact pieces_nil positive

end Splitting

/-! ## The plugins -/

/-- The built-in plugin that hands on a medium. -/
def Passthrough.of : MediaType → PluginKind → Passthrough
  | .video => video
  | .audio => audio

namespace Builtin

/-- Plugins that hand frames on, one behind the other. -/
def HandOn (plugins : List Builtin) : Prop :=
  ∀ s ∈ plugins, ∃ p, s = passthrough p

theorem HandOn.passes {plugins : List Builtin} (handOn : HandOn plugins) (frame : Frame) :
    ∃ plugins', Plugin.Passes frame plugins frame plugins' false ∧ HandOn plugins' := by
  induction plugins with
  | nil => exact ⟨[], .done frame, handOn⟩
  | cons s rest ih =>
      obtain ⟨⟨p, rfl⟩, hrest⟩ := List.forall_mem_cons.1 handOn
      obtain ⟨rest', hpasses, hhandOn⟩ := ih hrest
      have hnext := Plugin.Passes.next (passthrough_result frame p) hpasses
      rw [process_passthrough] at hnext
      exact ⟨_, hnext, List.forall_mem_cons.2 ⟨⟨_, rfl⟩, hhandOn⟩⟩

theorem HandOn.finishes {plugins : List Builtin} (handOn : HandOn plugins) :
    (Plugin.finishAll plugins).result = .ok () := by
  induction plugins with
  | nil => rfl
  | cons s rest ih =>
      obtain ⟨⟨p, rfl⟩, hrest⟩ := List.forall_mem_cons.1 handOn
      exact ih hrest

/-- No option is of interest to them. -/
theorem HandOn.configureAll {plugins : List Builtin} (handOn : HandOn plugins)
    (options : OptionTable) :
    Plugin.configureAll options plugins = { result := .ok (), state := plugins } := by
  induction plugins with
  | nil => rfl
  | cons s rest ih =>
      obtain ⟨⟨p, rfl⟩, hrest⟩ := List.forall_mem_cons.1 handOn
      have hconfigure : Plugin.configure options (passthrough p) =
          { result := .ok (), state := passthrough p } := rfl
      rw [Plugin.configureAll, hconfigure, ih hrest]
      rfl

theorem steady_handOn : Plugin.Steady HandOn (fun _ => True) id where
  passes plugins frame handOn _ := handOn.passes frame
  inProcess plugins handOn s mem := by
    obtain ⟨p, rfl⟩ := handOn s mem
    rfl
  finishes plugins handOn := handOn.finishes

end Builtin

/-! ## Frame sizes and checks -/

namespace Job

variable {job job' job'' : Job} {available : String → Bool} {size : Nat}

/-- Two jobs differ in the frame size at most, and it can be read. -/
structure Resized (job job' : Job) : Prop where
  rest_eq : job' = { job with options := job'.options }
  options_eq : ∀ name, name ≠ "frame_size" → job'.options.get? name = job.options.get? name
  readable : ∃ size, job'.frameSize = .ok size

/-- The job with another frame size. -/
def withFrameSize (job : Job) (size : Nat) : Job :=
  { job with options := job.options.set "frame_size" (toString size) }

theorem frameSize_withFrameSize (job : Job) (positive : 0 < size) (word : size < UInt32.size) :
    (job.withFrameSize size).frameSize = .ok size := by
  refine frameSize_eq ?_ positive word
  show (job.options.set _ _).get? _ = _
  rw [OptionTable.get?_set, if_pos rfl]

theorem resized_withFrameSize (job : Job) (positive : 0 < size)
    (word : size < UInt32.size) : job.Resized (job.withFrameSize size) where
  rest_eq := rfl
  options_eq name other := by
    show (job.options.set _ _).get? _ = _
    rw [OptionTable.get?_set, if_neg other]
  readable := ⟨size, job.frameSize_withFrameSize positive word⟩

theorem positive_of_frameSize (hsize : job.frameSize = .ok size) : 0 < size := by
  rcases job.options.getPositive_cases "frame_size" UInt32.size defaultFrameSize with
    ⟨-, hread⟩ | ⟨_, n, -, -, hpositive, -, hread⟩ | ⟨_, fault, -, -, hread⟩
  · cases hsize.symm.trans hread
    decide
  · cases hsize.symm.trans hread
    exact hpositive
  · cases hsize.symm.trans hread

/-- Two jobs that differ from one in the frame size differ from each other in it. -/
theorem Resized.between (resized : job.Resized job') (resized' : job.Resized job'') :
    job'.Resized job'' where
  rest_eq := by
    rw [resized.rest_eq]
    exact resized'.rest_eq
  options_eq name other :=
    (resized'.options_eq name other).trans (resized.options_eq name other).symm
  readable := resized'.readable

theorem Resized.input_eq (resized : job.Resized job') : job'.input = job.input := by
  rw [resized.rest_eq]

theorem Resized.effectiveOutput_eq (resized : job.Resized job') :
    job'.effectiveOutput = job.effectiveOutput := by
  rw [resized.rest_eq]
  rfl

theorem Resized.keepPartial_eq (resized : job.Resized job') :
    job'.keepPartial = job.keepPartial := by
  rw [keepPartial, keepPartial, OptionTable.flag, OptionTable.flag, OptionTable.getBool,
    OptionTable.getBool, resized.options_eq "keep_partial" (by decide)]

/-- Extensionality of checks by their failures. -/
theorem eq_of_error_iff {x y : Except Error Unit} (same : ∀ e, x = .error e ↔ y = .error e) :
    x = y := by
  cases x with
  | error e => exact ((same e).1 rfl).symm
  | ok _ =>
      cases y with
      | error e => exact (same e).2 rfl
      | ok _ => rfl

/-- A name that is refused is not that of the frame size, so it is set in both jobs or in none. -/
theorem breaks_optionNames_iff {options : OptionTable}
    (same : ∀ name, name ≠ "frame_size" → options.get? name = job.options.get? name) {e : Error} :
    Breaks { job with options } available .optionNames e ↔ job.Breaks available .optionNames e := by
  have hmem {name : String} (hrefused : ¬ job.Accepts name) :
      name ∈ options.names ↔ name ∈ job.options.names := by
    have hother : name ≠ "frame_size" := by
      rintro rfl
      exact hrefused (.inl (by decide))
    rw [OptionTable.mem_names_iff, OptionTable.mem_names_iff, same name hother]
  constructor
  · rintro @⟨name, hname, hrefused, hfirst⟩
    exact .optionNames ((hmem hrefused).1 hname) hrefused
      fun other hother hrefused' => hfirst other ((hmem hrefused').2 hother) hrefused'
  · rintro @⟨name, hname, hrefused, hfirst⟩
    exact .optionNames ((hmem hrefused).2 hname) hrefused
      fun other hother hrefused' => hfirst other ((hmem hrefused').1 hother) hrefused'

/-- No check but the one of the frame size itself looks at it. -/
theorem verdict_withOptions {options : OptionTable}
    (same : ∀ name, name ≠ "frame_size" → options.get? name = job.options.get? name)
    {r : Requirement} (mem : r ∈ Requirement.inOrder)
    (other : r ≠ .number "frame_size" UInt32.size) :
    verdict { job with options } available r = job.verdict available r := by
  have hbool (name : String) (hname : name ≠ "frame_size") :
      options.getBool name = job.options.getBool name := by
    rw [OptionTable.getBool, OptionTable.getBool, same name hname]
  have hbare : bare { job with options } = job.bare := by
    simp only [bare, writesRaw, OptionTable.flag, hbool "raw" (by decide)]
  have hformat : requestedFormat { job with options } = job.requestedFormat := by
    simp only [requestedFormat, same "format" (by decide)]
    rfl
  have hsupport : supportVerdict { job with options } = job.supportVerdict := by
    funext x
    cases x <;> rfl
  have hcontainer := same "container" (by decide)
  cases r with
  | optionNames =>
      apply eq_of_error_iff
      intro e
      rw [verdict_eq_error_iff, verdict_eq_error_iff, breaks_optionNames_iff same]
  | number name limit =>
      -- among the numbers, the name determines the limit
      have hname : name ≠ "frame_size" := by
        rintro rfl
        simp [Requirement.inOrder] at mem
        exact other (by rw [mem])
      simp only [verdict, OptionTable.getBelow, same name hname]
  | switch name =>
      have hname : name ≠ "frame_size" := by
        rintro rfl
        simp [Requirement.inOrder] at mem
      simp only [verdict, hbool name hname]
  | decoder | encoder | sameMedia | oneTool | tools => rfl
  | format => simp only [verdict, hformat]
  | supportedFormat => simp only [verdict, hformat, hsupport]
  | container => simp only [verdict, hcontainer]
  | supportedContainer => simp only [verdict, hcontainer, hsupport]
  | noContainer =>
      rw [verdict, verdict, hbare, OptionTable.contains, hcontainer, OptionTable.contains]
  | audioPath =>
      rw [verdict, verdict, hbare, OptionTable.flag, hbool "audio" (by decide), OptionTable.flag]

theorem forM_congr {α : Type} {f g : α → Except Error Unit} {l : List α}
    (same : ∀ a ∈ l, f a = g a) :
    forM l f = forM l g := by
  induction l with
  | nil => rfl
  | cons a l ih =>
      obtain ⟨ha, hl⟩ := List.forall_mem_cons.1 same
      rw [List.forM_cons, List.forM_cons, ha, ih hl]

/-- Jobs that differ in the frame size alone pass or fail the same checks. -/
theorem check_eq_of_resized (readable : ∃ size, job.frameSize = .ok size)
    (resized : job.Resized job') : job'.check available = job.check available := by
  obtain ⟨size, hsize⟩ := readable
  obtain ⟨size', hsize'⟩ := resized.readable
  rw [check_eq, check_eq]
  apply forM_congr
  intro r hr
  by_cases hother : r = .number "frame_size" UInt32.size
  · -- the frame sizes differ, but both of them can be read
    rw [hother, verdict_number _ _ _ _ defaultFrameSize, verdict_number _ _ _ _ defaultFrameSize]
    show job'.frameSize.map _ = job.frameSize.map _
    rw [hsize, hsize']
    rfl
  · rw [resized.rest_eq]
    exact verdict_withOptions resized.options_eq hr hother

end Job

/-! ## Running -/

namespace Job

variable {media : MediaType} {job job' : Job} {size : Nat} {keep : Bool}

/-- Raw video to raw video or raw audio to raw audio, with or without the decoder. -/
structure Copies (media : MediaType) (job : Job) : Prop where
  selected : job.selected = (Passthrough.of media .encoder).descriptor
  importer : job.importer? = none ∨ job.importer? = some (Passthrough.of media .decoder).descriptor

/-- Validity at every frame size. -/
def IsAccepted (job : Job) (available : String → Bool) : Prop :=
  ∀ job', job.Resized job' → job'.check available = .ok ()

theorem isAccepted_iff {base : Job} (resized : job.Resized base) {available : String → Bool} :
    job.IsAccepted available ↔ base.check available = .ok () := by
  constructor
  · intro accepted
    exact accepted base resized
  · intro valid job' resized'
    rw [check_eq_of_resized resized.readable (resized.between resized'), valid]

/-- No option is given but the frame size. -/
def IsPlain (job : Job) : Prop :=
  ∀ name, name ≠ "frame_size" → job.options.get? name = none

/-- Of a plain job that copies, the extension of the output decides whether it is accepted. -/
theorem Copies.isAccepted_iff_suitsOutput (copies : job.Copies media) (plain : job.IsPlain)
    (available : String → Bool) : job.IsAccepted available ↔ job.SuitsOutput := by
  obtain ⟨input, output, selected, importer?, rawAudio?, options⟩ := job
  obtain ⟨rfl, importer⟩ := copies
  -- the job without options has the default frame size
  have resized : Job.Resized ⟨input, output, _, importer?, rawAudio?, options⟩
      ⟨input, output, (Passthrough.of media .encoder).descriptor, importer?, rawAudio?, {}⟩ :=
    ⟨rfl, fun name other => (plain name other).symm, _, rfl⟩
  have bare : ¬ (Passthrough.of media .encoder).descriptor.isRawBitstream = true := by
    cases media <;> decide
  rw [isAccepted_iff resized]
  rcases importer with rfl | rfl <;> cases media <;>
    exact check_eq_ok_iff_suitsOutput rfl rfl rfl rfl (if_neg bare) rfl rfl rfl rfl

theorem Copies.of_resized (copies : job.Copies media) (resized : job.Resized job') :
    job'.Copies media where
  selected := (congrArg Job.selected resized.rest_eq).trans copies.selected
  importer := by
    rw [congrArg Job.importer? resized.rest_eq]
    exact copies.importer

/-- The instances of such a job. -/
def copier (media : MediaType) (job : Job) : Pipeline Builtin where
  job := job
  importer? := job.importer?.map fun _ => .passthrough (.of media .decoder)
  exporter := .passthrough (.of media .encoder)

theorem handOn_copier (media : MediaType) (job : Job) :
    Builtin.HandOn (copier media job).chain := by
  intro s hs
  rcases List.mem_append.1 hs with hs | hs
  · obtain ⟨_, -, rfl⟩ := Option.map_eq_some_iff.1 (Option.mem_toList.1 hs)
    exact ⟨_, rfl⟩
  · exact ⟨_, List.mem_singleton.1 hs⟩

theorem configureAll_copier (media : MediaType) (job : Job) :
    Plugin.configureAll (copier media job).job.options (copier media job).chain =
      { result := .ok (), state := (copier media job).chain } :=
  (handOn_copier media job).configureAll job.options

theorem handOn_configured (media : MediaType) (job : Job) :
    Builtin.HandOn (copier media job).configured := by
  rw [Pipeline.configured, configureAll_copier]
  exact handOn_copier media job

theorem not_cancelledEarly (media : MediaType) (job : Job) (setting : Cli.Setting) :
    (copier media job).cancelledEarly setting.surroundings = false := by
  rw [Pipeline.cancelledEarly, configureAll_copier]
  rfl

theorem Copies.create_eq (copies : job.Copies media) :
    Pipeline.create job Cli.registry = .ok (copier media job) := by
  have hexporter : Cli.registry.create job.selected.kind job.selected.name =
      .ok (.passthrough (.of media .encoder)) := by
    rw [copies.selected]
    cases media <;> rfl
  have himporter : Cli.registry.create (Passthrough.of media .decoder).descriptor.kind
      (Passthrough.of media .decoder).descriptor.name =
        .ok (.passthrough (.of media .decoder)) := by
    cases media <;> rfl
  rcases copies.importer with hnone | hsome
  · simp only [Pipeline.create, hexporter, hnone, copier]
    rfl
  · rw [Pipeline.create_eq hsome hexporter himporter, copier, hsome]
    rfl

theorem Copies.source_eq (copies : job.Copies media) (hsize : job.frameSize = .ok size) :
    Source.ofJob job = .ok (.file { path := job.input, splitting := .fixed size }) := by
  have hraw : job.first.framing = .raw := by
    rcases copies.importer with hnone | hsome
    · rw [first, hnone, copies.selected]
      cases media <;> rfl
    · rw [first, hsome]
      cases media <;> rfl
  rw [Source.ofJob, hraw, hsize]
  rfl

theorem Copies.openJob_eq (copies : job.Copies media) (hsize : job.frameSize = .ok size)
    (hkeep : job.keepPartial = .ok keep) (t : FileTree) :
    Cli.openJob Cli.registry t job =
      .ok (.file { path := job.input, splitting := .fixed size },
        { tree := t, path := job.effectiveOutput, keepPartial := keep }, copier media job) := by
  have hsink : FileSink.ofJob t job =
      .ok { tree := t, path := job.effectiveOutput, keepPartial := keep } := by
    rw [FileSink.ofJob, hkeep]
    rfl
  rw [Cli.openJob, copies.source_eq hsize, hsink, copies.create_eq]
  rfl

end Job

namespace Cli

variable {setting : Setting} {media : MediaType} {job : Job} {size : Nat} {keep : Bool}
  {data : Bytes}
  {mode : Nat}

/-- A job that copies moves all frames into the file, as they are. -/
theorem exists_takes_of_copies (copies : job.Copies media) (hsize : job.frameSize = .ok size)
    (positive : 0 < size) (hkeep : job.keepPartial = .ok keep)
    (valid : job.check (setting.tools.isAvailable setting.tree) = .ok ())
    (found : setting.tree.stat job.input = .ok (.file data mode)) {beside output : FileTree}
    (hpart : setting.tree.create (job.effectiveOutput ++ ".part") = .ok beside)
    (hpath : setting.tree.create job.effectiveOutput = .ok output) :
    ∃ last : FileSink, Sink.Takes
        { tree := setting.tree, path := job.effectiveOutput, keepPartial := keep }
        (Frame.number 1 (Splitting.pieces size data)) last ∧
      (Sink.commit last).result = .ok () ∧
        (transcode setting job).2 = (Sink.commit last).state.tree ∧
      ∃ summary, (transcode setting job).1 = .ok summary ∧
        summary.framesIn = (data.length + size - 1) / size ∧
        summary.framesOut = (data.length + size - 1) / size ∧
        summary.bytesIn = data.length ∧ summary.bytesOut = data.length := by
  obtain ⟨timeout, hprepared⟩ :
      ∃ timeout, (Job.copier media job).prepared setting.surroundings = .ok timeout :=
    Pipeline.exists_prepared valid (by rw [Job.configureAll_copier])
  obtain ⟨hmessages, hread⟩ := Source.feed_fixed positive found
  obtain ⟨last, takes, taken, hsink, hsummary⟩ := Pipeline.exists_takes_of_steady
    Builtin.steady_handOn hprepared (Job.handOn_configured media job)
    (Job.not_cancelledEarly media job setting) hmessages (fun _ _ => trivial)
    { tree := setting.tree, path := job.effectiveOutput, keepPartial := keep } rfl rfl hpart hpath
  rw [List.map_id] at takes
  rw [transcode_eq (copies.openJob_eq hsize hkeep setting.tree)]
  refine ⟨last, takes, taken, congrArg FileSink.tree hsink, _, hsummary,
    Splitting.length_pieces size data, Splitting.length_pieces size data, hread, ?_⟩
  show (List.flatMap id _).length = _
  rw [List.flatMap_id, Splitting.flatten_pieces positive]

/-- Jobs that copy but do not pass their checks fail in one way and touch no file. -/
theorem exists_error_of_copies (copies : job.Copies media)
    (readable : ∃ size, job.frameSize = .ok size)
    {e : Error} (refused : job.check (setting.tools.isAvailable setting.tree) = .error e) :
    ∃ e', ∀ job', job.Resized job' → transcode setting job' = (.error e', setting.tree) := by
  -- the switch that keeps partial files is read before the checks, too
  cases hkeep : job.keepPartial with
  | error fault =>
      refine ⟨fault, fun job' resized => ?_⟩
      obtain ⟨size', hsize'⟩ := resized.readable
      have hopen : openJob registry setting.tree job' = .error fault := by
        rw [openJob, (copies.of_resized resized).source_eq hsize', FileSink.ofJob,
          resized.keepPartial_eq, hkeep]
        rfl
      rw [transcode, hopen]
  | ok keep =>
      refine ⟨e, fun job' resized => ?_⟩
      obtain ⟨size', hsize'⟩ := resized.readable
      have hrefused := (Job.check_eq_of_resized readable resized).trans refused
      exact transcode_eq_of_check ((copies.of_resized resized).openJob_eq hsize'
        (resized.keepPartial_eq.trans hkeep) setting.tree) hrefused

/-- A job succeeded with this tree: as many frames as the frame size demands, and all bytes of the
data, went in and came out. -/
structure HandsOver (setting : Setting) (job : Job) (data : Bytes) (tree : FileTree) : Prop where
  tree_eq : (transcode setting job).2 = tree
  reports : ∃ size summary, job.frameSize = .ok size ∧ (transcode setting job).1 = .ok summary ∧
    summary.framesIn = (data.length + size - 1) / size ∧
    summary.framesOut = (data.length + size - 1) / size ∧
    summary.bytesIn = data.length ∧ summary.bytesOut = data.length

/-- Files can be created at the output path and beside it, and the latter is not where the input is.
-/
structure HasRoom (t : FileTree) (job : Job) : Prop where
  output : ∃ t', t.create job.effectiveOutput = .ok t'
  beside : ∃ t', t.create (job.effectiveOutput ++ ".part") = .ok t'
  apart : t.locate job.input ≠ t.locate (job.effectiveOutput ++ ".part")

/-- The input is still there, or was overwritten with its own bytes. -/
theorem stat_input_of_agreesBut {t t' : FileTree} {mode' : Nat} (room : HasRoom t job)
    (agrees : t.AgreesBut [job.effectiveOutput, job.effectiveOutput ++ ".part"] t')
    (found : t.stat job.input = .ok (.file data mode))
    (written : t'.stat job.effectiveOutput = .ok (.file data mode')) :
    ∃ mode, t'.stat job.input = .ok (.file data mode) := by
  by_cases hsame : t.locate job.input = t.locate job.effectiveOutput
  · -- the output took the place of the input, with the same data
    obtain ⟨place, hinput, -⟩ := FileTree.stat_eq_ok_iff.1 found
    obtain ⟨place', houtput, hthere⟩ := FileTree.stat_eq_ok_iff.1 written
    have hplace := agrees.toSameDirectories.locate_eq (hsame.symm.trans hinput)
    cases houtput.symm.trans hplace
    exact ⟨mode',
      FileTree.stat_eq_ok_iff.2 ⟨place, agrees.toSameDirectories.locate_eq hinput, hthere⟩⟩
  · refine ⟨mode, agrees.stat_eq_of_distinct (.refl t) ?_ found⟩
    exact List.forall_mem_cons.2 ⟨hsame, List.forall_mem_singleton.2 room.apart⟩

/-- The tree after a job that copies: it holds the data, and is the same for all frame sizes. -/
theorem exists_tree_of_copies (copies : job.Copies media)
    (readable : ∃ size, job.frameSize = .ok size)
    (valid : job.check (setting.tools.isAvailable setting.tree) = .ok ())
    (found : setting.tree.stat job.input = .ok (.file data mode))
    (room : HasRoom setting.tree job) :
    ∃ tree : FileTree, (∃ mode, tree.stat job.effectiveOutput = .ok (.file data mode)) ∧
      (∃ mode, tree.stat job.input = .ok (.file data mode)) ∧
      ∀ job', job.Resized job' → HandsOver setting job' data tree := by
  obtain ⟨beside, hpart⟩ := room.beside
  obtain ⟨output, hpath⟩ := room.output
  obtain ⟨size, hsize⟩ := readable
  obtain ⟨keep, hkeep⟩ := Job.exists_keepPartial valid
  have positive := Job.positive_of_frameSize hsize
  obtain ⟨last, takes, taken, -, -⟩ :=
    exists_takes_of_copies copies hsize positive hkeep valid found hpart hpath
  obtain ⟨agrees, ⟨mode', hstat⟩, -⟩ := FileSink.commit_of_takes takes rfl taken
  rw [Frame.flatMap_data_number, Splitting.flatten_pieces positive] at hstat
  refine ⟨(Sink.commit last).state.tree, ⟨mode', hstat⟩,
    stat_input_of_agreesBut room agrees found hstat, ?_⟩
  -- the other job takes other frames into the same sink, and only their bytes matter to what it
  -- leaves
  intro job' resized
  obtain ⟨size', hsize'⟩ := resized.readable
  have positive' := Job.positive_of_frameSize hsize'
  have houtput := resized.effectiveOutput_eq
  have hvalid := (Job.check_eq_of_resized ⟨size, hsize⟩ resized).trans valid
  obtain ⟨last', takes', -, htree, summary, hsummary⟩ := exists_takes_of_copies
    (copies.of_resized resized) hsize' positive' (resized.keepPartial_eq.trans hkeep) hvalid
    (resized.input_eq ▸ found) (houtput ▸ hpart) (houtput ▸ hpath)
  rw [houtput] at takes'
  refine ⟨htree.trans (FileSink.commit_tree_eq takes' takes rfl ?_ ?_), size', summary,
    hsize', hsummary⟩
  · -- there are no frames only where there is nothing to copy
    rw [Frame.number_eq_nil_iff, Frame.number_eq_nil_iff, Splitting.pieces_eq_nil_iff positive,
      Splitting.pieces_eq_nil_iff positive']
  · rw [Frame.flatMap_data_number, Frame.flatMap_data_number, Splitting.flatten_pieces positive,
      Splitting.flatten_pieces positive']

/-- **Cutting loses nothing, and a copy does not depend on it.** A file is read, in frames of any
size, as the frames it is cut into and then as ended for good, with all its bytes counted. Jobs from
raw video to raw video or from raw audio to raw audio, with or without the decoder, that differ in
the frame size alone are accepted together or refused together. The accepted ones all succeed and
leave the same files, with the bytes of the input as the output; refused ones change no file. Where
no other option is given, the extension of the output decides: the exporter has to support the
format it names, if it names one. -/
theorem copying_ignores_frame_size (copies : job.Copies media)
    (found : setting.tree.stat job.input = .ok (.file data mode))
    (room : HasRoom setting.tree job) :
    let available := setting.tools.isAvailable setting.tree
    (∀ size, 1 ≤ size → ∃ frames last,
      Source.ReadsTo setting.tree (.file { path := job.input, splitting := .fixed size }) frames
        (.ok ()) last ∧
      Splitting.IsCut size data frames ∧
      ∀ n, ((Source.pulled setting.tree n last).pull setting.tree).result = .ok none ∧
        (Source.pulled setting.tree n last).bytesRead = data.length) ∧
    (∀ size, 1 ≤ size → size ≤ 2 ^ 32 - 1 →
      job.Resized (job.withFrameSize size) ∧ (job.withFrameSize size).frameSize = .ok size ∧
        Source.ofJob (job.withFrameSize size) =
          .ok (.file { path := job.input, splitting := .fixed size })) ∧
    (job.IsAccepted available →
      ∃ tree : FileTree, (∃ mode, tree.stat job.effectiveOutput = .ok (.file data mode)) ∧
        (∃ mode, tree.stat job.input = .ok (.file data mode)) ∧
        ∀ job', job.Resized job' → HandsOver setting job' data tree) ∧
    (¬ job.IsAccepted available →
      ∃ e, ∀ job', job.Resized job' → transcode setting job' = (.error e, setting.tree)) ∧
    (job.IsPlain → (job.IsAccepted available ↔ job.SuitsOutput)) := by
  intro available
  -- the job with frames of one byte represents all of them
  have hbase := job.resized_withFrameSize Nat.one_pos (by decide)
  have hcopies := copies.of_resized hbase
  refine ⟨?_, ?_, ?_, ?_, fun plain => copies.isAccepted_iff_suitsOutput plain available⟩
  · intro size positive
    refine ⟨_, _, Source.readsTo_file positive found, Splitting.isCut_pieces positive data, ?_⟩
    intro n
    rw [Source.pulled_of_ended rfl rfl]
    exact ⟨(Source.pull_of_ended rfl rfl).1, rfl⟩
  · intro size positive most
    have hword : size < UInt32.size := Nat.lt_of_le_of_lt most (by decide)
    have hresized := job.resized_withFrameSize positive hword
    have hsize := job.frameSize_withFrameSize positive hword
    exact ⟨hresized, hsize, (copies.of_resized hresized).source_eq hsize⟩
  · intro accepted
    obtain ⟨tree, houtput, hinput, hall⟩ := exists_tree_of_copies hcopies hbase.readable
      (accepted _ hbase) found ⟨room.output, room.beside, room.apart⟩
    exact ⟨tree, houtput, hinput, fun job' resized => hall job' (hbase.between resized)⟩
  · rw [Job.isAccepted_iff hbase]
    intro invalid
    cases hcheck : (job.withFrameSize 1).check available with
    | ok _ => exact absurd hcheck invalid
    | error e =>
        obtain ⟨e', hfails⟩ := exists_error_of_copies hcopies hbase.readable hcheck
        exact ⟨e', fun job' resized => hfails job' (hbase.between resized)⟩

/-- Three bytes of raw audio. -/
def studioSetting : Setting where
  tree := { nodes := [(["take.raw"], .file [1, 2, 3] Node.newMode)] }
  tools := {}
  elapsed := ""
  occasion := { today := ⟨2026, 3, 19⟩, pack := id }

/-- The job that decodes and encodes the take again. -/
def studioJob : Job where
  input := "take.raw"
  output := "copy.wav"
  selected := (Passthrough.of .audio .encoder).descriptor
  importer? := some (Passthrough.of .audio .decoder).descriptor

/-- Whatever the frame size, the three bytes are copied. -/
theorem copying_ignores_frame_size_studio : ∃ tree : FileTree,
    (∃ mode, tree.stat "copy.wav" = .ok (.file [1, 2, 3] mode)) ∧
      ∀ size, 1 ≤ size → size ≤ 2 ^ 32 - 1 →
        HandsOver studioSetting (studioJob.withFrameSize size) [1, 2, 3] tree := by
  have hcopies : studioJob.Copies .audio := ⟨rfl, .inr rfl⟩
  have hroom : HasRoom studioSetting.tree studioJob := by
    refine ⟨⟨_, rfl⟩, ⟨_, rfl⟩, ?_⟩
    have hinput : studioSetting.tree.locate studioJob.input = .ok ["take.raw"] := rfl
    have hbeside : studioSetting.tree.locate (studioJob.effectiveOutput ++ ".part") =
        .ok ["copy.wav.part"] := rfl
    simp [hinput, hbeside]
  have hfound : studioSetting.tree.stat studioJob.input = .ok (.file [1, 2, 3] Node.newMode) := rfl
  obtain ⟨-, hsizes, hcopied, -, hdecided⟩ := copying_ignores_frame_size hcopies hfound hroom
  have hplain : studioJob.IsPlain := fun _ _ => rfl
  have hsuits : studioJob.SuitsOutput := by
    rintro tag ⟨⟩
    rfl
  obtain ⟨tree, houtput, -, hall⟩ := hcopied ((hdecided hplain).2 hsuits)
  exact ⟨tree, houtput, fun size positive most => hall _ (hsizes size positive most).1⟩

/-- A copy that names another format than its own. -/
def misnamedJob : Job where
  input := "take.raw"
  output := "copy.ogg"
  selected := (Passthrough.of .video .encoder).descriptor

/-- Refusal of a copy for its extension: raw video is not written to an Ogg file, and no file is
changed. -/
theorem copying_refused_by_extension :
    misnamedJob.Copies .video ∧ misnamedJob.IsPlain ∧ HasRoom studioSetting.tree misnamedJob ∧
      studioSetting.tree.stat misnamedJob.input = .ok (.file [1, 2, 3] Node.newMode) ∧
      transcode studioSetting misnamedJob =
        (.error (.validation (.unsupportedFormat "raw" "OGG" "RAW")), studioSetting.tree) := by
  have hcopies : misnamedJob.Copies .video := ⟨rfl, .inl rfl⟩
  have hroom : HasRoom studioSetting.tree misnamedJob := by
    refine ⟨⟨_, rfl⟩, ⟨_, rfl⟩, ?_⟩
    have hinput : studioSetting.tree.locate misnamedJob.input = .ok ["take.raw"] := rfl
    have hbeside : studioSetting.tree.locate (misnamedJob.effectiveOutput ++ ".part") =
        .ok ["copy.ogg.part"] := rfl
    simp [hinput, hbeside]
  refine ⟨hcopies, fun _ _ => rfl, hroom, rfl, ?_⟩
  exact transcode_eq_of_check (hcopies.openJob_eq rfl rfl studioSetting.tree) rfl

end Cli

end Transcode
