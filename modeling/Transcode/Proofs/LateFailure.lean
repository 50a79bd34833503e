import Transcode.Codec.Builtin
import Transcode.Proofs.FailureBounds
import Transcode.Proofs.FailureReport
import Transcode.Proofs.Feed
/-!
# Failures of a run that has begun

Configuration and validation come before the first frame. `Error.IsLate` are the failures after it:
a broken run or a tool that fails. Sources that read files, the built-in plugins and the file sink
fail in no other way, so a run made of them does not either, however its tool and its user behave
(`Pipeline.Runs.isLate`).
-/

set_option autoImplicit false

namespace Transcode

namespace Error

/-- The exit status is that of a broken run or of a failed tool. -/
def IsLate (e : Error) : Prop :=
  e.exitCode = 4 ∨ e.exitCode = 5

theorem IsLate.toJobFailure {cause : Error} (h : cause.IsLate) (last : Option Nat) :
    (cause.toJobFailure last).IsLate := by
  rw [IsLate, (reports_toJobFailure last cause).exitCode_eq]
  exact h

/-- Input or output that is refused, or bad data: what can be wrong with a stream. -/
inductive IsStream : Error → Prop where
  | io (cause : IoError) : IsStream (.io cause)
  | data (fault : DataFault) : IsStream (.invalidData fault)

theorem IsStream.isLate {e : Error} (h : e.IsStream) : e.IsLate := by
  cases h with
  | io => exact .inl rfl
  | data => exact .inl rfl

end Error

/-! ## Parts that fail late -/

/-- Plugins that fail late, once they are configured. -/
structure Plugin.FailsLate (σ : Type) [Plugin σ] : Prop where
  encode : ∀ frame (s : σ) e, (encode frame s).result = .error e → e.IsLate
  decode : ∀ frame (s : σ) e, (decode frame s).result = .error e → e.IsLate
  finish : ∀ (s : σ) e, (finish s).result = .error e → e.IsLate

/-- Sinks that fail late. -/
structure Sink.FailsLate (τ : Type) [Sink τ] : Prop where
  write : ∀ frame (s : τ) e, (write frame s).result = .error e → e.IsLate
  commit : ∀ (s : τ) e, (commit s).result = .error e → e.IsLate

theorem Plugin.FailsLate.process {σ : Type} [Plugin σ] (h : FailsLate σ) {frame : Frame} {s : σ}
    {e : Error}
    (refused : (process frame s).result = .error e) : e.IsLate := by
  rw [Plugin.process] at refused
  split at refused
  · exact h.encode frame s e refused
  · exact h.decode frame s e refused

/-- Late failures are a bound for parts that fail late, whatever state their plugins are in. -/
theorem Run.bound_isLate {σ τ : Type} [Plugin σ] [Sink τ] (plugins : Plugin.FailsLate σ)
    (sinks : Sink.FailsLate τ) : Run.Bound τ (fun _ : σ => True) Error.IsLate where
  stays _ _ := id
  process _ _ _ _ := plugins.process
  finish s e _ := plugins.finish s e
  write := sinks.write
  commit := sinks.commit
  order _ _ := .inl rfl
  cancelled := .inl rfl
  tool _ _ _ := .inr rfl
  reported _ last h := h.toJobFailure last

/-- A tool that is not started is a failed tool. -/
theorem ToolLocator.isLate_of_launch {l : ToolLocator} {t : FileTree} {timeout : Nat}
    {call : Invocation} {e : Error} (h : (l.launch t timeout call).result = .error e) :
    e.IsLate := by
  simp only [launch] at h
  split at h
  · cases h
    exact .inr rfl
  · split at h
    · cases h
      exact .inr rfl
    · cases h

theorem Session.isLate_failure (s : Session) (failure : ToolFailure) : (s.failure failure).IsLate :=
  .inr rfl

theorem Session.isLate_of_cause {s : Session} {ending : Ending} {fault : Option IoError}
    {received : Nat} {complete : Bool} {cause : Error}
    (h : s.cause? ending fault received complete = some cause) : cause.IsLate := by
  rw [cause?] at h
  split at h
  · cases h
    exact s.isLate_failure _
  · split at h
    · cases h
    · cases h
      exact s.isLate_failure _

/-! ## Runs of such parts -/

section Runs

variable {σ τ : Type} [Plugin σ] [Sink τ] {disturbed : Prop} {messages : List (Except Error Frame)}
  {completed : List Frame} {cause : Error} {last : Run σ τ} {run : Run σ τ}
  {result : Except Error Unit}

/-- Lateness of the cause of a failed run through a tool. -/
theorem Pump.Drives.isLate {s : Session} (plugins : Plugin.FailsLate σ) (sinks : Sink.FailsLate τ)
    (sources : ∀ e, .error e ∈ messages → e.IsLate)
    (h : Drives disturbed s run messages completed (some cause) last result) : cause.IsLate := by
  generalize hcause : some cause = cause? at h
  cases h with
  | exited => exact s.isLate_of_cause hcause.symm
  | @broken events event _ _ _ _ _ reaches allows enabled expects completes trips fails =>
      cases hcause
      refine trips.within (Run.bound_isLate plugins sinks) (fun _ _ => trivial) fun e he => ?_
      have hmem : event ∈ events ++ [event] := List.mem_append_right _ List.mem_cons_self
      cases event with
      | message m =>
          cases m with
          | ok frame => cases he
          | error _ =>
              cases he
              -- the message is one of those that the source delivers
              apply sources
              apply allows.inOrder.subset
              rw [PumpEvent.brought_append]
              exact List.mem_append_right _ List.mem_cons_self
      | outputFailed _ =>
          cases he
          obtain ⟨failure, rfl⟩ := allows.failing e hmem
          exact s.isLate_failure failure
      | cancel | permit | refused | endOfInput | output _ | outputClosed => cases he

namespace Pipeline

variable {around : Surroundings} {timeout : Nat} {call : Option Invocation}

theorem Drives.isLate (plugins : Plugin.FailsLate σ) (sinks : Sink.FailsLate τ)
    (sources : ∀ e, .error e ∈ messages → e.IsLate)
    (h : Drives disturbed around timeout run messages call completed (some cause) last result) :
    cause.IsLate := by
  generalize hcause : some cause = cause? at h
  cases h with
  | @inProcess _ images rest station stop left divided moves stops =>
      refine stops.within (Run.bound_isLate plugins sinks) (fun _ _ => trivial)
        (fun e he => sources e ?_)
        hcause.symm
      rw [divided]
      exact List.mem_append_right _ he
  | interrupted =>
      cases hcause
      exact (Run.bound_isLate plugins sinks).cancelled
  | unstarted refused =>
      cases hcause
      exact ToolLocator.isLate_of_launch refused
  | through started drives =>
      subst hcause
      exact drives.isLate plugins sinks sources

/-- **A run of parts that fail late fails late**, on every schedule, disturbed or not. -/
theorem Runs.isLate {p : Pipeline σ} {source : Source} {sink left : τ} {cause? : Option Error}
    {e : Error} (plugins : Plugin.FailsLate σ) (sinks : Sink.FailsLate τ)
    (sources : ∀ e, .error e ∈ (source.feed around.tree).messages → e.IsLate)
    (h : p.Runs disturbed around timeout source sink completed cause? (.error e) left) :
    e.IsLate := by
  obtain ⟨cause, rfl, rfl⟩ := h.failure_eq
  apply Error.IsLate.toJobFailure
  generalize hresult : Except.error (cause.toJobFailure (Pump.lastNumber completed)) = result at h
  cases h with
  | succeeded => cases hresult
  | failed completes =>
      generalize hcause : some cause = cause? at completes
      generalize Except.error _ = ended at completes
      cases completes with
      | broken drives =>
          subst hcause
          exact drives.isLate plugins sinks sources
      | unfinished drives refused =>
          cases hcause
          exact (Run.bound_isLate plugins sinks).finishAll (fun _ _ => trivial) refused
      | uncommitted drives finished refused =>
          cases hcause
          exact sinks.commit _ _ refused
      | committed => cases hcause

end Pipeline

end Runs

/-! ## The parts of the library -/

namespace Chunk

/-- A payload is refused as bad data. -/
theorem exists_fault_of_wrap {tag : ChunkTag} {payload : Bytes} {e : Error}
    (h : wrap tag payload = .error e) : ∃ fault, e = .invalidData fault := by
  rw [wrap] at h
  split at h
  · cases h
  · cases h
    exact ⟨_, rfl⟩

theorem exists_fault_of_unwrap {tag : ChunkTag} {data : Bytes} {e : Error}
    (h : unwrap tag data = .error e) : ∃ fault, e = .invalidData fault := by
  rw [unwrap] at h
  split at h
  · next hparse =>
      cases h
      unfold ChunkHeader.parse at hparse
      split at hparse
      · cases hparse
      · cases hparse
        exact ⟨_, rfl⟩
  · dsimp only at h
    split at h
    · cases h
      exact ⟨_, rfl⟩
    · split at h
      · cases h
      · cases h
        exact ⟨_, rfl⟩

end Chunk

/-- Replacing the payload of a frame fails as the replacement does. -/
theorem eq_error_of_map {α β ε : Type} {f : α → β} {r : Except ε α} {e : ε}
    (h : r.map f = .error e) : r = .error e := by
  cases r with
  | error cause => cases h; rfl
  | ok a => cases h

/-- The encoder refuses a frame for its data. -/
theorem Divx.Encoder.exists_fault_of_encode {frame : Frame} {s : Encoder} {e : Error}
    (h : (s.encode frame).result = .error e) : ∃ fault, e = .invalidData fault := by
  unfold encode at h
  split at h
  · cases h
    exact ⟨_, rfl⟩
  · split at h
    · cases h
    · exact Chunk.exists_fault_of_wrap (eq_error_of_map h)

namespace FileSink

theorem isStream_of_write {frame : Frame} {s : FileSink} {e : Error}
    (h : (Sink.write frame s).result = .error e) : e.IsStream := by
  have hwrite : Sink.write frame s = FileSink.write frame s := rfl
  rw [hwrite, write] at h
  cases hopened : s.opened with
  | error cause =>
      rw [hopened] at h
      cases h
      exact .io _
  | ok file =>
      rw [hopened] at h
      cases htake : (file.take frame).2 with
      | ok _ =>
          simp only [htake] at h
          cases h
      | error cause =>
          simp only [htake] at h
          cases h
          exact .io _

theorem isStream_of_commit {s : FileSink} {e : Error} (h : (Sink.commit s).result = .error e) :
    e.IsStream := by
  simp only [Sink.commit, commit] at h
  split at h
  · cases h
    exact .io _
  · split at h
    · cases h
      exact .io _
    · split at h
      · cases h
        exact .io _
      · cases h

end FileSink

/-! ## Sources that read files -/

namespace FileSource

theorem isStream_of_opened {s : FileSource} {t : FileTree} {e : Error}
    (h : (s.opened t).result = .error e) : e.IsStream := by
  rw [opened] at h
  split at h
  · cases h
  · split at h
    · cases h
      exact .io _
    · cases h

theorem isStream_of_pull {s : FileSource} {t : FileTree} {e : Error}
    (h : (s.pull t).result = .error e) : e.IsStream := by
  simp only [pull] at h
  split at h
  · next hopened =>
      cases h
      exact isStream_of_opened hopened
  · cases h
    exact .io _
  · split at h
    · cases h
      exact .data _
    · cases h
    · cases h

end FileSource

/-- A file that is read to a failure has something wrong with its stream. -/
theorem Source.ReadsTo.isStream {t : FileTree} {s last : Source} {frames : List Frame}
    {ending : Except Error Unit} (h : ReadsTo t s frames ending last) {file : FileSource}
    {e : Error}
    (isFile : s = .file file) (failed : ending = .error e) : e.IsStream := by
  -- a pull leaves a file behind, so the induction goes on with the next pull
  induction h generalizing file with
  | ended => cases failed
  | failed error =>
      cases failed
      subst isFile
      exact FileSource.isStream_of_pull error
  | frame _ _ ih =>
      subst isFile
      exact ih rfl failed

/-- The failures in the feed of a file are stream failures. -/
theorem Source.isStream_of_feed {t : FileTree} {file : FileSource} {e : Error}
    (h : .error e ∈ ((Source.file file).feed t).messages) : e.IsStream := by
  obtain ⟨frames, ending, last, reads, messages, _⟩ := exists_readsTo_feed t (.file file)
  rw [messages, List.mem_append] at h
  rcases h with h | h
  · simp at h
  · cases ending with
    | ok _ => cases h
    | error cause =>
        rw [endMessages, List.mem_singleton] at h
        cases h
        exact reads.isStream rfl rfl

end Transcode
