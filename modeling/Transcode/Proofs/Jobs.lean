import Transcode.Cli.Command
import Transcode.Proofs.DateTexts
import Transcode.Proofs.Preparation
/-!
# Jobs of the command

Requirements of a job: options that can be read, checks that are passed, a source, a sink and the
instances of its plugins. `Cli.transcode` is a job run with the built-in plugins; its result is the
summary itself. A call that plans a job has its files, its exit status and its output from there
(`Cli.call_eq_transcode`), so all theorems about `Cli.transcode` are about calls.
-/

set_option autoImplicit false

namespace Transcode

/-! ## Numbers in options -/

namespace Decimal

/-- A number that is written in decimal is read back. -/
theorem below?_toString {limit n : Nat} (h : n < limit) : below? limit (toString n) = some n := by
  have hlist : (toString n).toList = Nat.toDigits 10 n := Nat.toList_repr
  have hdigit : ∀ c ∈ Nat.toDigits 10 n, c.isDigit = true :=
    fun c => Nat.isDigit_of_mem_toDigits (by decide) (by decide)
  have hdigits : digits? (Nat.toDigits 10 n) = some n := by
    rw [digits?, if_pos ⟨Nat.toDigits_ne_nil, List.all_eq_true.2 hdigit⟩, ofDigits_toDigits]
  -- a digit is no sign
  have hunsigned : unsigned? (Nat.toDigits 10 n) = some n := by
    unfold unsigned?
    split
    · next cs hplus =>
        rw [hplus] at hdigit
        exact absurd (hdigit '+' List.mem_cons_self) (by decide)
    · exact hdigits
  rw [below?, hlist, hunsigned]
  exact Option.filter_some_pos (decide_eq_true h)

end Decimal

/-! ## Checks -/

namespace Job

/-- A frame size that is given is read. -/
theorem frameSize_eq {job : Job} {size : Nat}
    (set : job.options.get? "frame_size" = some (toString size)) (positive : 0 < size)
    (word : size < UInt32.size) : job.frameSize = .ok size := by
  have hword : job.options.getWord32 "frame_size" = .ok (some size) := by
    simp only [OptionTable.getWord32, OptionTable.getBelow, set, Decimal.below?_toString word]
  rw [frameSize, hword]
  obtain ⟨n, rfl⟩ := Nat.exists_eq_add_of_lt positive
  rfl

/-- The extension of the output path, where it names a format, names one that the selected plugin
supports. -/
def SuitsOutput (job : Job) : Prop :=
  ∀ tag, FormatTag.ofPath? job.effectiveOutput = some tag → job.selected.supports tag = true

/-- The format is refused because of the extension, where the options say nothing about it. -/
theorem checkFormat_eq_ok_iff {job : Job} {tag : FormatTag}
    (format : job.options.get? "format" = none)
    (container : job.options.get? "container" = none)
    (preferred : job.selected.preferred? = some tag)
    (supported : job.selected.supports tag = true) :
    job.checkFormat = .ok () ↔ job.SuitsOutput := by
  simp only [checkFormat, requestedFormat, format, container, SuitsOutput, checkSupported]
  cases FormatTag.ofPath? job.effectiveOutput with
  | none => simp [preferred, supported, bind, Except.bind]
  | some tag => cases hsupports : job.selected.supports tag <;> simp [hsupports, bind, Except.bind]

/-- All checks have to be passed. -/
theorem check_eq_ok_iff {job : Job} {available : String → Bool} :
    job.check available = .ok () ↔
      job.checkOptionNames = .ok () ∧ job.checkOptionValues = .ok () ∧ job.checkChain = .ok () ∧
        job.checkFormat = .ok () ∧ job.checkTools available = .ok () ∧
          job.checkExclusive = .ok () := by
  simp only [check, bind, Except.bind]
  cases job.checkOptionNames <;> cases job.checkOptionValues <;> cases job.checkChain <;>
    cases job.checkFormat <;> cases job.checkTools available <;> simp

/-- Where all else is in order, the extension of the output path decides. -/
theorem check_eq_ok_iff_suitsOutput {job : Job} {tag : FormatTag} {available : String → Bool}
    (names : job.checkOptionNames = .ok ()) (values : job.checkOptionValues = .ok ())
    (chain : job.checkChain = .ok ()) (tools : job.checkTools available = .ok ())
    (raw : job.writesRaw = .ok false) (format : job.options.get? "format" = none)
    (container : job.options.get? "container" = none)
    (preferred : job.selected.preferred? = some tag)
    (supported : job.selected.supports tag = true) :
    job.check available = .ok () ↔ job.SuitsOutput := by
  have exclusive : job.checkExclusive = .ok () := by
    simp only [checkExclusive, raw]
    rfl
  rw [check_eq_ok_iff, checkFormat_eq_ok_iff format container preferred supported]
  simp only [names, values, chain, tools, exclusive, true_and, and_true]

end Job

/-! ## Parts -/

namespace Builtin

theorem process_passthrough (frame : Frame) (s : Passthrough) :
    Plugin.process frame (passthrough s) = lift passthrough (s.forward frame) := by
  rw [Plugin.process]
  split <;> rfl

/-- Raw frames are handed on. -/
theorem passthrough_result (frame : Frame) (s : Passthrough) :
    (Plugin.process frame (passthrough s)).result = .ok frame := by
  rw [process_passthrough]
  rfl

end Builtin

/-- The source of a job is a file. -/
theorem Source.exists_file_of_ofJob {job : Job} {source : Source} (h : ofJob job = .ok source) :
    ∃ file, source = .file file := by
  rw [ofJob] at h
  split at h
  · cases h
    exact ⟨_, rfl⟩
  · cases hsize : job.frameSize with
    | error e => simp [hsize, Except.map] at h
    | ok size =>
        rw [hsize] at h
        cases h
        exact ⟨_, rfl⟩

/-- The sink of a job is not open, and writes to the output of the job. -/
theorem FileSink.closed_of_ofJob {t : FileTree} {job : Job} {sink : FileSink}
    (h : ofJob t job = .ok sink) :
    sink.tree = t ∧ sink.path = job.effectiveOutput ∧ sink.buffer = none := by
  rw [ofJob] at h
  cases hkeep : job.keepPartial with
  | error e => simp [hkeep, Except.map] at h
  | ok keep =>
      rw [hkeep] at h
      cases h
      exact ⟨rfl, rfl, rfl⟩

/-- The instances of a job with an importer. -/
theorem Pipeline.create_eq {σ : Type} {registry : Registry σ} {job : Job} {d : Descriptor}
    {exporter importer : σ} (selected : job.importer? = some d)
    (hexporter : registry.create job.selected.kind job.selected.name = .ok exporter)
    (himporter : registry.create d.kind d.name = .ok importer) :
    create job registry = .ok { job, importer? := some importer, exporter } := by
  simp only [create, hexporter, selected, himporter, bind, Except.bind, pure, Except.pure]

namespace Cli

/-- The source and the sink of a job that can be opened. -/
theorem parts_of_openJob {registry : Registry Builtin} {t : FileTree} {job : Job} {source : Source}
    {sink : FileSink} {pipeline : Pipeline Builtin}
    (h : openJob registry t job = .ok (source, sink, pipeline)) :
    (∃ file, source = .file file) ∧ FileSink.ofJob t job = .ok sink := by
  simp only [openJob, bind, Except.bind] at h
  split at h
  · cases h
  · next hsource =>
      split at h
      · cases h
      · next hsink =>
          split at h
          · cases h
          · cases h
            exact ⟨Source.exists_file_of_ofJob hsource, hsink⟩

/-! ## Running -/

/-- The registry of the built-in plugins. -/
def registry : Registry Builtin :=
  (Builtin.registerEvery id Registry.empty).state

theorem builtins_result : builtins.result = .ok registry :=
  rfl

/-- A job run with the built-in plugins: its report, and the files it leaves. -/
def transcode (setting : Setting) (job : Job) : Except Error Summary × FileTree :=
  match openJob registry setting.tree job with
  | .error e => (.error e, setting.tree)
  | .ok (source, sink, pipeline) =>
      let outcome := pipeline.run setting.surroundings source sink
      (outcome.result, outcome.sink.tree)

/-- The exit status of a result. -/
def exitStatus {α : Type} : Except Error α → Nat
  | .ok _ => 0
  | .error e => e.exitCode

section Command

variable {setting : Setting} {arguments : Arguments} {words : List String} {job : Job}

/-- The task of a command line for which a job can be planned. -/
theorem task_result (notList : arguments.list = false) (notDescribe : arguments.describe? = none)
    (planned : (plan registry setting.tools setting.tree arguments).result = .ok job) :
    (task setting arguments).result = (openJob registry setting.tree job).map
      fun (source, sink, pipeline) => .run job source sink pipeline := by
  simp only [task, bind, Attempt.andThen, builtins_result, notList, notDescribe, planned,
    Attempt.log, Attempt.quiet, Bool.false_eq_true, if_false]
  cases openJob registry setting.tree job <;> rfl

/-- The execution of a planned job is its transcoding, and the summary is printed. -/
theorem execute_eq_transcode (notList : arguments.list = false)
    (notDescribe : arguments.describe? = none)
    (planned : (plan registry setting.tools setting.tree arguments).result = .ok job) :
    (execute setting arguments).1 = (transcode setting job).2 ∧
      (execute setting arguments).2.result =
        (transcode setting job).1.map fun s => [summaryLine job s setting.elapsed] := by
  rw [execute, task_result notList notDescribe planned, transcode]
  cases openJob registry setting.tree job with
  | error e => exact ⟨rfl, rfl⟩
  | ok parts => exact ⟨rfl, rfl⟩

/-- The setting of a call in which the log has been started. -/
def Setting.logged (setting : Setting) (arguments : Arguments) : Setting :=
  { setting with tree := (startLog setting (logSettings arguments)).1 }

/-- The execution of a call, once the log has been started. -/
theorem perform_eq_execute (setting : Setting) (arguments : Arguments) :
    let executed := execute (setting.logged arguments) arguments
    (perform setting arguments).tree = executed.1 ∧
      (perform setting arguments).exit = exitStatus executed.2.result ∧
      (perform setting arguments).stdout = executed.2.result.toOption.getD [] := by
  simp only [perform, Setting.logged]
  split
  · next hresult =>
      rw [hresult]
      exact ⟨rfl, rfl, rfl⟩
  · next hresult =>
      rw [hresult]
      exact ⟨rfl, rfl, rfl⟩

/-- **A call that plans a job transcodes**: its files, its exit status and its output are those of
the job in the tree with the log. -/
theorem call_eq_transcode (asked : Request.ofWords words = .run arguments)
    (notList : arguments.list = false) (notDescribe : arguments.describe? = none)
    (planned : (plan registry setting.tools (setting.logged arguments).tree arguments).result =
      .ok job) :
    let transcoded := transcode (setting.logged arguments) job
    (call setting words).tree = transcoded.2 ∧
      (call setting words).exit = exitStatus transcoded.1 ∧
      (call setting words).stdout =
        (transcoded.1.toOption.map (summaryLine job · setting.elapsed)).toList := by
  obtain ⟨htree, hexit, hprinted⟩ := perform_eq_execute setting arguments
  have executed : (execute (setting.logged arguments) arguments).1 = _ ∧
      (execute (setting.logged arguments) arguments).2.result = _ :=
    execute_eq_transcode notList notDescribe planned
  simp only [call, asked]
  rw [htree, hexit, hprinted, executed.1, executed.2]
  refine ⟨rfl, ?_, ?_⟩
  · cases (transcode (setting.logged arguments) job).1 <;> rfl
  · cases (transcode (setting.logged arguments) job).1 <;> rfl

end Command

variable {setting : Setting} {job : Job} {source : Source} {sink : FileSink}
  {pipeline : Pipeline Builtin}

theorem transcode_eq (opened : openJob registry setting.tree job = .ok (source, sink, pipeline)) :
    transcode setting job =
      ((pipeline.run setting.surroundings source sink).result,
        (pipeline.run setting.surroundings source sink).sink.tree) := by
  rw [transcode, opened]

/-- A job that does not pass its checks fails as they do, and touches no file. -/
theorem transcode_eq_of_check {e : Error}
    (opened : openJob registry setting.tree job = .ok (source, sink, pipeline))
    (refused : pipeline.job.check (setting.tools.isAvailable setting.tree) = .error e) :
    transcode setting job = (.error e, setting.tree) := by
  have hvalidate : (pipeline.job.validate setting.surroundings.tools
      setting.surroundings.tree).result = .error e := refused
  have hprepared : pipeline.prepared setting.surroundings = .error e := by
    simp only [Pipeline.prepared, hvalidate]
  obtain ⟨lines, hrun⟩ := Pipeline.exists_run_of_unprepared hprepared
  rw [transcode_eq opened, hrun, (FileSink.closed_of_ofJob (parts_of_openJob opened).2).1]

theorem transcode_of_check {e : Error}
    (opened : openJob registry setting.tree job = .ok (source, sink, pipeline))
    (refused : pipeline.job.check (setting.tools.isAvailable setting.tree) = .error e) :
    (transcode setting job).1 = .error e := by
  rw [transcode_eq_of_check opened refused]

theorem exists_transcode_error
    (opened : openJob registry setting.tree job = .ok (source, sink, pipeline))
    (invalid : pipeline.job.check (setting.tools.isAvailable setting.tree) ≠ .ok ()) :
    ∃ e, (transcode setting job).1 = .error e := by
  cases hcheck : pipeline.job.check (setting.tools.isAvailable setting.tree) with
  | ok _ => exact absurd hcheck invalid
  | error e => exact ⟨e, transcode_of_check opened hcheck⟩

end Cli

end Transcode
