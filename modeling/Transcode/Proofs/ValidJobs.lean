import Transcode.Proofs.Jobs
import Transcode.Proofs.PluginCalls
import Transcode.Proofs.Registrations
import Transcode.Proofs.Requirements
/-!
# The guarantees of validation

Validation looks at what the plugins of a job declare. What is done later rests on what their
instances do: a source and a sink are opened from the same options, the chain is divided at the
first instance that calls a tool, the tool is looked for again, and frames are handed to an instance
by the kind that it declares. For jobs over the built-in plugins the two agree (`Job.Instantiates`),
so the guarantees of validation hold (`Job.Kept`), and two failures never show: a tool that is not
found, and an operation that is not supported (`Error.IsForeclosed`).
-/

set_option autoImplicit false

namespace Transcode

/-! ## Failures that cannot be left -/

/-- A tool that is not found or an operation that is not supported, also as the end of a run. -/
inductive Error.IsForeclosed : Error → Prop where
  | tool (tool : String) (last : Option Nat) : IsForeclosed (.externalTool tool .notFound last)
  | operation (operation : UnsupportedOperation) : IsForeclosed (.unsupported operation)
  | brokenOff (operation : UnsupportedOperation) (last : Option Nat) :
      IsForeclosed (.pipeline (.unsupported operation) last)

theorem Error.IsForeclosed.of_toJobFailure {e : Error} {last : Option Nat}
    (h : (e.toJobFailure last).IsForeclosed) : e.IsForeclosed := by
  cases e with
  | externalTool tool failure _ =>
      cases h
      exact .tool tool _
  | unsupported operation => exact .operation operation
  | pipeline reason _ =>
      cases h
      exact .brokenOff _ _
  | duplicateName | pluginNotFound | configuration | validation | cancelled | io | invalidData =>
      cases h

theorem Error.IsStream.not_isForeclosed {e : Error} (h : e.IsStream) : ¬e.IsForeclosed := by
  intro foreclosed
  cases h <;> cases foreclosed

/-- The parts of a job over the built-in plugins do not fail in these ways. -/
theorem Builtin.bound_works : Run.Bound FileSink Works fun e => ¬e.IsForeclosed where
  stays frame _ works := works.call (.process frame)
  process _ _ _ works refused := by
    obtain ⟨fault, rfl⟩ := exists_fault_of_process works refused
    exact (Error.IsStream.data fault).not_isForeclosed
  finish s _ _ refused := by
    rw [finish_result] at refused
    cases refused
  write _ _ _ refused := (FileSink.isStream_of_write refused).not_isForeclosed
  commit _ _ refused := (FileSink.isStream_of_commit refused).not_isForeclosed
  order _ _ := nofun
  cancelled := nofun
  tool _ _ found := by
    rintro ⟨⟩
    exact found rfl
  reported _ _ allowed foreclosed := allowed foreclosed.of_toJobFailure

/-! ## Dividing at the tool -/

namespace Pipeline

variable {σ : Type} [Plugin σ]

/-- The tool that is called is that of one of the plugins. -/
theorem exists_of_divide {plugins : List σ} {call : Invocation}
    (h : (divide plugins).2.2 = some call) :
    ∃ s ∈ plugins, Plugin.invocation s = some call := by
  induction plugins with
  | nil => cases h
  | cons s rest ih =>
      cases hcall : Plugin.invocation s with
      | some first =>
          simp only [divide, hcall] at h
          exact ⟨s, List.mem_cons_self, hcall.trans h⟩
      | none =>
          simp only [divide, hcall] at h
          obtain ⟨s', hmem, hinvocation⟩ := ih h
          exact ⟨s', List.mem_cons_of_mem s hmem, hinvocation⟩

/-- Where one plugin at most calls a tool, none behind the tool does. -/
theorem invocation_behind {plugins : List σ}
    (one : plugins.countP (fun s => (Plugin.invocation s).isSome) ≤ 1) :
    ∀ s ∈ (divide plugins).2.1, Plugin.invocation s = none := by
  induction plugins with
  | nil => exact fun _ h => nomatch h
  | cons s rest ih =>
      cases hcall : Plugin.invocation s with
      | some call =>
          simp only [divide, hcall]
          rw [List.countP_cons_of_pos (by rw [hcall]; rfl)] at one
          have hrest := List.countP_eq_zero.1 (Nat.le_zero.1 (Nat.le_of_succ_le_succ one))
          exact fun s' hs' => Option.not_isSome_iff_eq_none.1 (hrest s' hs')
      | none =>
          simp only [divide, hcall]
          rw [List.countP_cons_of_neg (by rw [hcall]; exact Bool.false_ne_true)] at one
          exact ih one

end Pipeline

/-- A tool that is located is not missed when it is started. -/
theorem ToolLocator.not_isForeclosed_of_launch {l : ToolLocator} {t : FileTree} {timeout : Nat}
    {call : Invocation} {path : String} (located : l.locate? t call.tool = some path) {e : Error}
    (h : (l.launch t timeout call).result = .error e) : ¬e.IsForeclosed := by
  simp only [launch, located] at h
  split at h
  · cases h
    rintro ⟨⟩
  · cases h

/-! ## Facts from the checks -/

namespace Job

variable {job : Job} {available : String → Bool}

/-- A job that passes its checks passes each of them. -/
theorem verdict_of_check (valid : job.check available = .ok ()) {r : Requirement}
    (mem : r ∈ Requirement.inOrder) : job.verdict available r = .ok () := by
  rw [check_eq, forM_eq_ok_iff] at valid
  exact valid r mem

theorem exists_frameSize (valid : job.check available = .ok ()) :
    ∃ size, job.frameSize = .ok size ∧ 1 ≤ size ∧ size ≤ 2 ^ 32 - 1 := by
  have hverdict : job.verdict available (.number "frame_size" UInt32.size) = .ok () :=
    verdict_of_check valid (by simp [Requirement.inOrder])
  rw [verdict_number job available _ _ defaultFrameSize] at hverdict
  rcases job.options.getPositive_cases "frame_size" UInt32.size defaultFrameSize with
    ⟨-, hsize⟩ | ⟨_, size, -, -, hpositive, hbelow, hsize⟩ | ⟨_, fault, -, -, hsize⟩
  · exact ⟨defaultFrameSize, hsize, by decide, by decide⟩
  · exact ⟨size, hsize, hpositive, Nat.le_sub_one_of_lt hbelow⟩
  · rw [hsize] at hverdict
    cases hverdict

theorem exists_keepPartial (valid : job.check available = .ok ()) :
    ∃ keep, job.keepPartial = .ok keep :=
  exists_flag_of_verdict (verdict_of_check valid (by simp [Requirement.inOrder]))

/-- One plugin of the chain at most is external. -/
theorem countP_isExternal_of_check (valid : job.check available = .ok ()) :
    job.chain.countP Descriptor.isExternal ≤ 1 := by
  have hverdict : job.verdict available .oneTool = .ok () :=
    verdict_of_check valid (by simp [Requirement.inOrder])
  cases himporter : job.importer? with
  | none => exact countP_isExternal_le himporter
  | some importer =>
      refine Nat.not_lt.1 fun htwo => ?_
      rw [countP_isExternal himporter] at htwo
      simp only [verdict, importVerdict, himporter, htwo, if_true] at hverdict
      cases hverdict

theorem available_of_check (valid : job.check available = .ok ()) :
    ∀ d ∈ job.chain, ∀ tool ∈ d.tools, available tool = true := by
  have hverdict : job.checkTools available = .ok () :=
    verdict_of_check (r := .tools) valid (by simp [Requirement.inOrder])
  apply missingTool?_eq_none_iff.1
  unfold checkTools at hverdict
  split at hverdict
  · cases hverdict
  · next hnone => exact hnone

end Job

/-! ## Instances -/

/-- Fresh built-in instances of one kind. -/
def Builtin.ofKind : PluginKind → List Builtin
  | .encoder => encoders
  | .decoder => decoders

theorem Cli.table_registry (kind : PluginKind) :
    registry.table kind = (Builtin.ofKind kind).map fun b => ⟨Plugin.descriptor b, .ok b⟩ := by
  cases kind <;> rfl

/-- A built-in instance is of the kind it is registered under, works as such and is found by its
name. -/
theorem Cli.create_of_mem {kind : PluginKind} {b : Builtin} (mem : b ∈ Builtin.ofKind kind) :
    (Plugin.descriptor b).kind = kind ∧ b.Works ∧
      registry.create kind (Plugin.descriptor b).name = .ok b := by
  cases kind with
  | encoder =>
      simp only [Builtin.ofKind, Builtin.encoders, List.mem_cons, List.not_mem_nil, or_false] at mem
      rcases mem with rfl | rfl | rfl | rfl | rfl | rfl <;> exact ⟨rfl, by trivial, rfl⟩
  | decoder =>
      simp only [Builtin.ofKind, Builtin.decoders, List.mem_cons, List.not_mem_nil, or_false] at mem
      rcases mem with rfl | rfl | rfl | rfl <;> exact ⟨rfl, trivial, rfl⟩

/-- The descriptors of a job are ones that a registry has given out. -/
def Job.IsOver {σ : Type} (registry : Registry σ) (job : Job) : Prop :=
  ∀ d ∈ job.chain, ∃ kind name, registry.resolve kind name = .ok d

/-- A resolved plugin can be created, under the same kind. -/
theorem Cli.exists_create {kind : PluginKind} {name : String} {d : Descriptor}
    (h : registry.resolve kind name = .ok d) :
    d.kind = kind ∧ ∃ s, registry.create d.kind d.name = .ok s ∧ Plugin.descriptor s = d ∧
      s.Works := by
  have hmem := Registry.mem_of_resolve h
  rw [Registry.descriptors, table_registry, List.map_map] at hmem
  obtain ⟨s, hs, rfl⟩ := List.mem_map.1 hmem
  obtain ⟨hkind, works, hcreate⟩ := create_of_mem hs
  refine ⟨hkind, s, ?_, rfl, works⟩
  show registry.create (Plugin.descriptor s).kind (Plugin.descriptor s).name = .ok s
  rw [hkind]
  exact hcreate

namespace Job

variable {job : Job} {tools : ToolLocator} {t : FileTree} {p : Pipeline Builtin}

/-- A pipeline has the instances of a job, and each works as the kind that it declares. -/
structure Instantiates (job : Job) (p : Pipeline Builtin) : Prop where
  job_eq : p.job = job
  declared : p.chain.map Plugin.descriptor = job.chain
  works : ∀ s ∈ p.chain, s.Works

theorem IsOver.exists_create (known : job.IsOver Cli.registry) :
    ∃ p, Pipeline.create job Cli.registry = .ok p ∧ job.Instantiates p := by
  have hselected : job.selected ∈ job.chain := List.mem_append_right _ List.mem_cons_self
  obtain ⟨_, _, hresolved⟩ := known _ hselected
  obtain ⟨-, exporter, hexporter, hdeclared, hworks⟩ := Cli.exists_create hresolved
  cases himporter : job.importer? with
  | none =>
      refine ⟨{ job, importer? := none, exporter }, ?_, rfl, ?_, List.forall_mem_singleton.2 hworks⟩
      · simp only [Pipeline.create, hexporter, himporter]
        rfl
      · rw [chain, himporter, ← hdeclared]
        rfl
  | some d =>
      have hd : d ∈ job.chain :=
        List.mem_append_left _ (by rw [himporter]; exact List.mem_cons_self)
      obtain ⟨_, _, hresolved'⟩ := known d hd
      obtain ⟨-, importer, hcreate, hdeclared', hworks'⟩ := Cli.exists_create hresolved'
      refine ⟨_, Pipeline.create_eq himporter hexporter hcreate, rfl, ?_,
        List.forall_mem_cons.2 ⟨hworks', List.forall_mem_singleton.2 hworks⟩⟩
      rw [chain, himporter, ← hdeclared, ← hdeclared']
      rfl

namespace Instantiates

theorem map_configured (made : job.Instantiates p) :
    p.configured.map Plugin.descriptor = job.chain := by
  rw [Pipeline.configured, Builtin.map_descriptor_configureAll]
  exact made.declared

theorem works_configured (made : job.Instantiates p) : ∀ s ∈ p.configured, s.Works :=
  Builtin.works_configureAll made.works

/-- Only plugins that declare themselves as external call a tool. -/
theorem countP_invocation_le (made : job.Instantiates p) :
    p.configured.countP (fun s => (Plugin.invocation s).isSome) ≤
      job.chain.countP Descriptor.isExternal := by
  rw [← made.map_configured, List.countP_map]
  exact List.countP_mono_left fun s _ => Builtin.isExternal_of_invocation

/-- The tools of valid jobs are located when they are called. -/
theorem exists_located (made : job.Instantiates p) (valid : (job.validate tools t).result = .ok ())
    {s : Builtin} (hs : s ∈ p.configured) {call : Invocation}
    (calls : Plugin.invocation s = some call) :
    ∃ path, tools.locate? t call.tool = some path := by
  have hdescriptor : Plugin.descriptor s ∈ job.chain := by
    rw [← made.map_configured]
    exact List.mem_map_of_mem hs
  apply Option.isSome_iff_exists.1
  exact available_of_check valid _ hdescriptor _ (Builtin.tool_mem_of_invocation calls)

/-- The failure of a valid job to start is a configuration fault. -/
theorem exists_fault_of_prepared (made : job.Instantiates p) {around : Surroundings}
    (valid : (job.validate around.tools around.tree).result = .ok ()) {e : Error}
    (h : p.prepared around = .error e) : ∃ fault, e = .configuration fault := by
  obtain ⟨timeout, htimeout⟩ := exists_toolTimeout valid
  rw [← made.job_eq] at valid htimeout
  simp only [Pipeline.prepared, valid, htimeout] at h
  obtain ⟨s, -, hrefused⟩ := Plugin.exists_of_configureAll (eq_error_of_map h)
  exact Builtin.exists_fault_of_configure hrefused

/-- The run of a valid job meets no failure that validation forecloses. -/
theorem not_isForeclosed_of_run (made : job.Instantiates p) (around : Surroundings)
    (valid : (job.validate around.tools around.tree).result = .ok ()) {source : Source}
    (opened : Source.ofJob job = .ok source) {sink : FileSink} {e : Error}
    (failed : (p.run around source sink).result = .error e) : ¬e.IsForeclosed := by
  cases hprepared : p.prepared around with
  | error cause =>
      obtain ⟨fault, rfl⟩ := made.exists_fault_of_prepared valid hprepared
      obtain ⟨lines, hrun⟩ := Pipeline.exists_run_of_unprepared hprepared
      rw [hrun] at failed
      cases failed
      exact nofun
  | ok timeout =>
      obtain ⟨file, rfl⟩ := Source.exists_file_of_ofJob opened
      refine Pipeline.run_within Builtin.bound_works hprepared made.works_configured ?_ ?_ failed
      · intro call cause hcall hlaunch
        obtain ⟨s, hs, hinvocation⟩ := Pipeline.exists_of_divide hcall
        obtain ⟨path, hlocated⟩ := made.exists_located valid hs hinvocation
        exact ToolLocator.not_isForeclosed_of_launch hlocated hlaunch
      · exact fun cause hcause => (Source.isStream_of_feed hcause).not_isForeclosed

end Instantiates

/-- The guarantees of validation for a job and its instances, as long as the files stay as they are.
-/
structure Kept (job : Job) (tools : ToolLocator) (t : FileTree) (p : Pipeline Builtin) : Prop where
  /-- The source can be opened, and cuts a raw stream by the frame size of the job. -/
  source : ∃ splitting, Source.ofJob job = .ok (.file { path := job.input, splitting }) ∧
    ∀ size, splitting = .fixed size → job.frameSize = .ok size ∧ 1 ≤ size ∧ size ≤ 2 ^ 32 - 1
  sink : ∃ keepPartial, job.keepPartial = .ok keepPartial ∧
    FileSink.ofJob t job = .ok { tree := t, path := job.effectiveOutput, keepPartial }
  toolTimeout : ∃ timeout, job.toolTimeout = .ok timeout
  /-- The instances can be created, and declare what the job was checked for. -/
  instances : Pipeline.create job Cli.registry = .ok p ∧ p.chain.map Plugin.descriptor = job.chain
  oneTool : p.configured.countP (fun s => (Plugin.invocation s).isSome) ≤ 1
  /-- No call of a tool is passed over. -/
  behind : ∀ s ∈ (Pipeline.divide p.configured).2.1, Plugin.invocation s = none
  /-- A tool that is called is located, and starting it does not miss it. -/
  located : ∀ s ∈ p.configured, ∀ call, Plugin.invocation s = some call →
    (∃ path, tools.locate? t call.tool = some path) ∧
      ∀ timeout tool last,
        (tools.launch t timeout call).result ≠ .error (.externalTool tool .notFound last)
  /-- No run ends with a tool that is not found or with an operation that is not supported. -/
  runs : ∀ source sink cancelled elapsed e,
    Source.ofJob job = .ok source → FileSink.ofJob t job = .ok sink →
    (p.run { tree := t, tools, cancelled, elapsed } source sink).result = .error e → ¬e.IsForeclosed
  /-- Instances have the kind they were resolved under. -/
  kinds : ∀ s ∈ p.chain, ∀ kind name, Cli.registry.resolve kind name = .ok (Plugin.descriptor s) →
    (Plugin.descriptor s).kind = kind
  /-- The instances keep their descriptors, and do the work of their kind, after any calls. -/
  supported : ∀ s ∈ p.chain, ∀ calls, Plugin.descriptor (Plugin.after s calls) =
    Plugin.descriptor s ∧
    ∀ frame operation,
      (Plugin.process frame (Plugin.after s calls)).result ≠ .error (.unsupported operation)

/-- **Validation keeps its promises**: a job over the built-in plugins that passes its checks has
all its parts, one tool at most, which is there, and instances that do the work of their kind. -/
theorem validation_is_kept (known : job.IsOver Cli.registry)
    (valid : (job.validate tools t).result = .ok ()) : ∃ p, job.Kept tools t p := by
  obtain ⟨p, hcreate, made⟩ := known.exists_create
  obtain ⟨size, hsize, hbounds⟩ := exists_frameSize valid
  obtain ⟨keep, hkeep⟩ := exists_keepPartial valid
  have hone := made.countP_invocation_le.trans (countP_isExternal_of_check valid)
  refine ⟨p, ?_, ⟨keep, hkeep, ?_⟩, exists_toolTimeout valid, ⟨hcreate, made.declared⟩, hone,
    Pipeline.invocation_behind hone, ?_, ?_, ?_, ?_⟩
  · -- the first plugin decides how the input is cut
    unfold Source.ofJob
    split
    · exact ⟨_, rfl, fun _ h => nomatch h⟩
    · refine ⟨.fixed size, by rw [hsize]; rfl, ?_⟩
      rintro _ ⟨⟩
      exact ⟨hsize, hbounds⟩
  · rw [FileSink.ofJob, hkeep]
    rfl
  · intro s hs call hcall
    obtain ⟨path, hlocated⟩ := made.exists_located valid hs hcall
    refine ⟨⟨path, hlocated⟩, ?_⟩
    intro timeout tool last hlaunch
    exact ToolLocator.not_isForeclosed_of_launch hlocated hlaunch (.tool tool last)
  · intro source sink cancelled elapsed e hsource _ hfailed
    exact made.not_isForeclosed_of_run { tree := t, tools, cancelled, elapsed } valid
      hsource hfailed
  · intro s _ kind name hresolve
    exact (Cli.exists_create hresolve).1
  · intro s hs calls
    have hworks := (made.works s hs).after calls
    refine ⟨Builtin.descriptor_after s calls, ?_⟩
    intro frame operation hrefused
    obtain ⟨fault, hfault⟩ := Builtin.exists_fault_of_process hworks hrefused
    cases hfault

/-- Samples that pass a decoder and are then left to a tool. -/
def soundtrack : Job where
  input := "in.pcm"
  output := "out.ogg"
  selected := Vorbis.encoderDescriptor
  importer? := some (Passthrough.audio .decoder).descriptor
  options := { entries := [("frame_size", "1024"), ("quality", "5")] }

/-- The tool stands in a directory that is searched. -/
theorem validation_is_kept_soundtrack :
    let tools : ToolLocator := { search := ["/bin"] }
    let t : FileTree :=
      { nodes := [(["bin"], .directory),
        (["bin", "oggenc"], .program (.unstartable .execFormat) 0o755)] }
    soundtrack.IsOver Cli.registry ∧ (soundtrack.validate tools t).result = .ok () ∧
      ∃ p, soundtrack.Kept tools t p := by
  intro tools t
  have hover : soundtrack.IsOver Cli.registry :=
    List.forall_mem_cons.2 ⟨⟨.decoder, "pcm", rfl⟩,
      List.forall_mem_singleton.2 ⟨.encoder, "ogg", rfl⟩⟩
  have hvalid : (soundtrack.validate tools t).result = .ok () := rfl
  exact ⟨hover, hvalid, validation_is_kept hover hvalid⟩

end Job

end Transcode
