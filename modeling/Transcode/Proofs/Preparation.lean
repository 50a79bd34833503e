import Transcode.Codec.Passthrough
import Transcode.Pipeline
/-!
# Preparation of a pipeline

Before a source is read the job is checked, its time limit is looked up and its plugins are
configured. `Pipeline.prepared` is these three in their order. A pipeline that is not prepared fails
and leaves the sink alone (`Pipeline.exists_run_of_unprepared`); any other goes on with the plugins
as they were configured (`Pipeline.run_of_prepared`).
-/

set_option autoImplicit false

namespace Transcode

namespace Job

/-- A job that passes its checks has a time limit for tools. -/
theorem exists_toolTimeout {job : Job} {available : String → Bool}
    (valid : job.check available = .ok ()) : ∃ timeout, job.toolTimeout = .ok timeout := by
  cases htimeout : job.toolTimeout with
  | ok timeout => exact ⟨timeout, rfl⟩
  | error e =>
      simp only [check, checkOptionValues, htimeout, bind, Except.bind] at valid
      cases hnames : job.checkOptionNames with
      | error e => simp [hnames] at valid
      | ok _ => cases hsize : job.frameSize <;> simp [hnames, hsize] at valid

end Job

namespace Pipeline

variable {σ τ : Type} [Plugin σ]

/-- The time limit for tools of a job that may start, or the first thing that keeps it from it. -/
def prepared (p : Pipeline σ) (around : Surroundings) : Except Error Nat :=
  match (p.job.validate around.tools around.tree).result with
  | .error e => .error e
  | .ok () =>
      match p.job.toolTimeout with
      | .error e => .error e
      | .ok timeout => (Plugin.configureAll p.job.options p.chain).result.map fun () => timeout

/-- A job that passes its checks and whose plugins can be configured may start. -/
theorem exists_prepared {p : Pipeline σ} {around : Surroundings}
    (valid : (p.job.validate around.tools around.tree).result = .ok ())
    (configured : (Plugin.configureAll p.job.options p.chain).result = .ok ()) :
    ∃ timeout, p.prepared around = .ok timeout := by
  obtain ⟨timeout, htimeout⟩ := Job.exists_toolTimeout valid
  refine ⟨timeout, ?_⟩
  simp only [prepared, valid, htimeout, configured]
  rfl

/-- A pipeline that may not start reports why. Neither source nor sink are looked at: what is logged
is the same for all of them, and every sink is left as it is. -/
theorem exists_run_of_unprepared {p : Pipeline σ} {around : Surroundings} {e : Error}
    (h : p.prepared around = .error e) :
    ∃ lines, ∀ {τ : Type} [Sink τ] (source : Source) (sink : τ),
      p.run around source sink = { result := .error e, sink, lines } := by
  unfold prepared at h
  cases hvalid : (p.job.validate around.tools around.tree).result with
  | error cause =>
      simp only [hvalid, Except.error.injEq] at h
      subst h
      refine ⟨(p.job.validate around.tools around.tree).lines, fun source sink => ?_⟩
      simp only [run, hvalid, Except.bind]
  | ok _ =>
      cases htimeout : p.job.toolTimeout with
      | error cause =>
          simp only [hvalid, htimeout, Except.error.injEq] at h
          subst h
          refine ⟨(p.job.validate around.tools around.tree).lines, fun source sink => ?_⟩
          simp only [run, hvalid, htimeout, Except.bind]
      | ok timeout =>
          cases hconfigured : (Plugin.configureAll p.job.options p.chain).result with
          | ok _ => simp [hvalid, htimeout, hconfigured, Except.map] at h
          | error cause =>
              simp only [hvalid, htimeout, hconfigured, Except.map, Except.error.injEq] at h
              subst h
              refine ⟨(p.job.validate around.tools around.tree).lines ++
                (Plugin.configureAll p.job.options p.chain).lines, fun source sink => ?_⟩
              simp only [run, hvalid, htimeout, Except.bind, hconfigured]

variable [Sink τ]

/-- A pipeline that may start runs its plugins as they were configured. -/
theorem run_of_prepared {p : Pipeline σ} {around : Surroundings} {timeout : Nat}
    (h : p.prepared around = .ok timeout) (source : Source) (sink : τ) :
    (p.run around source sink).result =
        (runConfigured p.job around timeout (Plugin.configureAll p.job.options p.chain).state source
          sink (around.cancelled || (Plugin.configureAll p.job.options p.chain).cancels)).result ∧
      (p.run around source sink).sink =
        (runConfigured p.job around timeout (Plugin.configureAll p.job.options p.chain).state source
          sink (around.cancelled || (Plugin.configureAll p.job.options p.chain).cancels)).sink := by
  unfold prepared at h
  cases hvalid : (p.job.validate around.tools around.tree).result with
  | error cause => simp [hvalid] at h
  | ok _ =>
      cases htimeout : p.job.toolTimeout with
      | error cause => simp [hvalid, htimeout] at h
      | ok limit =>
          cases hconfigured : (Plugin.configureAll p.job.options p.chain).result with
          | error cause => simp [hvalid, htimeout, hconfigured, Except.map] at h
          | ok _ =>
              simp only [hvalid, htimeout, hconfigured, Except.map, Except.ok.injEq] at h
              subst h
              simp only [run, hvalid, htimeout, Except.bind, hconfigured, and_self]

/-- Raw video that is decoded and encoded again. -/
def relay : Pipeline Passthrough where
  job :=
    { input := "in.raw", output := "out.raw", selected := (Passthrough.video .encoder).descriptor
      importer? := some (Passthrough.video .decoder).descriptor }
  importer? := some (.video .decoder)
  exporter := .video .encoder

/-- The relay needs no tools and is always prepared. -/
theorem prepared_relay (around : Surroundings) :
    relay.prepared around = .ok Job.defaultToolTimeout :=
  rfl

end Pipeline

end Transcode
