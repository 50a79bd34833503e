import Mathlib.Data.List.Forall2
import Transcode.Codec.Builtin
import Transcode.Proofs.LateFailure
import Transcode.Proofs.OptionValues
/-!
# Calls of plugin instances

An instance is configured, handed frames and finished, in any order and whether or not the calls
succeed (`Plugin.after`). A built-in one keeps its descriptor all along, and as long as that is of
the kind the instance works as, it refuses a frame only for its data
(`Builtin.exists_fault_of_process`). The tool it calls is one that it declares
(`Builtin.tool_mem_of_invocation`).
-/

set_option autoImplicit false

namespace Transcode

/-- A call of an instance. -/
inductive PluginCall where
  | configure (options : OptionTable)
  | process (frame : Frame)
  | finish

namespace Plugin

variable {σ : Type} [Plugin σ]

/-- The instance after a call. -/
def call (s : σ) : PluginCall → σ
  | .configure options => (configure options s).state
  | .process frame => (process frame s).state
  | .finish => (finish s).state

/-- The instance after a list of calls. -/
def after (s : σ) (calls : List PluginCall) : σ :=
  calls.foldl call s

/-- Configuration of a list of plugins leaves each of them configured or unchanged. -/
theorem forall₂_configureAll (options : OptionTable) (plugins : List σ) :
    List.Forall₂ (fun s s' => s' = s ∨ s' = call s (.configure options)) plugins
      (configureAll options plugins).state := by
  induction plugins with
  | nil => exact .nil
  | cons s rest ih =>
      rw [configureAll]
      split
      · exact .cons (.inr rfl) (List.forall₂_same.2 fun _ _ => .inl rfl)
      · exact .cons (.inr rfl) ih

/-- A refused configuration is refused by one of the plugins. -/
theorem exists_of_configureAll {options : OptionTable} {plugins : List σ} {e : Error}
    (h : (configureAll options plugins).result = .error e) :
    ∃ s ∈ plugins, (configure options s).result = .error e := by
  induction plugins with
  | nil => cases h
  | cons s rest ih =>
      rw [configureAll] at h
      split at h
      · next cause hcause =>
          cases h
          exact ⟨s, List.mem_cons_self, hcause⟩
      · obtain ⟨s', hmem, hrefused⟩ := ih h
        exact ⟨s', List.mem_cons_of_mem s hmem, hrefused⟩

end Plugin

namespace Builtin

open Plugin (call after)

/-! ## Invariants of calls -/

theorem descriptor_configure_divx (options : OptionTable) (s : Divx.Encoder) :
    (s.configure options).state.descriptor = s.descriptor := by
  unfold Divx.Encoder.configure
  split
  · rfl
  · split <;> rfl

theorem descriptor_encode_divx (frame : Frame) (s : Divx.Encoder) :
    (s.encode frame).state.descriptor = s.descriptor := by
  unfold Divx.Encoder.encode
  split
  · rfl
  · split <;> rfl

theorem descriptor_configure (options : OptionTable) (s : Builtin) :
    Plugin.descriptor (Plugin.configure options s).state = Plugin.descriptor s := by
  cases s with
  | divxEncoder s => exact descriptor_configure_divx options s
  | _ => rfl

theorem descriptor_process (frame : Frame) (s : Builtin) :
    Plugin.descriptor (Plugin.process frame s).state = Plugin.descriptor s := by
  unfold Plugin.process
  split
  · cases s with
    | divxEncoder s => exact descriptor_encode_divx frame s
    | _ => rfl
  · cases s <;> rfl

/-- A call keeps what an instance declares. -/
theorem descriptor_call (s : Builtin) (c : PluginCall) :
    Plugin.descriptor (call s c) = Plugin.descriptor s := by
  cases c with
  | configure options => exact descriptor_configure options s
  | process frame => exact descriptor_process frame s
  | finish => cases s <;> rfl

theorem descriptor_after (s : Builtin) (calls : List PluginCall) :
    Plugin.descriptor (after s calls) = Plugin.descriptor s := by
  induction calls generalizing s with
  | nil => rfl
  | cons c rest ih => exact (ih (call s c)).trans (descriptor_call s c)

/-- The kind that an instance declares is one it works as. Raw media go both ways. -/
def Works : Builtin → Prop
  | .divxEncoder s => s.descriptor.kind = .encoder
  | _ => True

theorem Works.call {s : Builtin} (works : s.Works) (c : PluginCall) : (Plugin.call s c).Works := by
  cases c with
  | configure options =>
      cases s with
      | divxEncoder s =>
          exact (congrArg Descriptor.kind (descriptor_configure_divx options s)).trans works
      | _ => trivial
  | process frame =>
      simp only [Plugin.call, Plugin.process]
      cases s with
      | divxEncoder s =>
          split
          · exact (congrArg Descriptor.kind (descriptor_encode_divx frame s)).trans works
          · exact works
      | _ => split <;> trivial
  | finish =>
      cases s with
      | divxEncoder s => exact works
      | _ => trivial

theorem Works.after {s : Builtin} (works : s.Works) (calls : List PluginCall) :
    (Plugin.after s calls).Works := by
  induction calls generalizing s with
  | nil => exact works
  | cons c rest ih => exact ih (works.call c)

theorem map_descriptor_configureAll (options : OptionTable) (plugins : List Builtin) :
    (Plugin.configureAll options plugins).state.map Plugin.descriptor =
      plugins.map Plugin.descriptor := by
  have hcalls := Plugin.forall₂_configureAll options plugins
  generalize (Plugin.configureAll options plugins).state = configured at hcalls ⊢
  induction hcalls with
  | nil => rfl
  | @cons s s' _ _ hcall _ ih =>
      rw [List.map_cons, List.map_cons, ih]
      rcases hcall with rfl | rfl
      · rfl
      · rw [descriptor_call]

theorem works_configureAll {options : OptionTable} {plugins : List Builtin}
    (works : ∀ s ∈ plugins, s.Works) :
    ∀ s ∈ (Plugin.configureAll options plugins).state, s.Works := by
  have hcalls := Plugin.forall₂_configureAll options plugins
  generalize (Plugin.configureAll options plugins).state = configured at hcalls ⊢
  induction hcalls with
  | nil => exact works
  | cons hcall _ ih =>
      rw [List.forall_mem_cons] at works ⊢
      refine ⟨?_, ih works.2⟩
      rcases hcall with rfl | rfl
      · exact works.1
      · exact works.1.call _

/-! ## Failures of calls -/

/-- A working instance refuses a frame only for its data. -/
theorem exists_fault_of_process {s : Builtin} (works : s.Works) {frame : Frame} {e : Error}
    (h : (Plugin.process frame s).result = .error e) : ∃ fault, e = .invalidData fault := by
  unfold Plugin.process at h
  cases s with
  | passthrough s => split at h <;> cases h
  | discard s | vorbisEncoder s | vorbisDecoder s => cases h
  | divxEncoder s =>
      have hkind : (Plugin.descriptor (divxEncoder s)).kind = .encoder := works
      rw [hkind] at h
      exact Divx.Encoder.exists_fault_of_encode h
  | divxDecoder s => exact Chunk.exists_fault_of_unwrap (eq_error_of_map h)

theorem finish_result (s : Builtin) : (Plugin.finish s).result = .ok () := by
  cases s <;> rfl

end Builtin

/-- A number option that cannot be read is a fault of the configuration. -/
theorem OptionTable.exists_fault_of_getBelow {limit : Nat} {options : OptionTable} {name : String}
    {e : Error} (h : options.getBelow limit name = .error e) :
    ∃ fault, e = .configuration fault := by
  rcases options.getBelow_cases limit name with ⟨-, hread⟩ | ⟨_, _, -, -, -, hread⟩ |
    ⟨_, -, -, hread⟩
  · cases h.symm.trans hread
  · cases h.symm.trans hread
  · cases h.symm.trans hread
    exact ⟨_, rfl⟩

theorem OptionTable.exists_fault_of_flag {options : OptionTable} {name : String} {e : Error}
    (h : options.flag name = .error e) : ∃ fault, e = .configuration fault := by
  have hread := eq_error_of_map h
  rcases options.getBool_cases name with ⟨-, hbool⟩ | ⟨_, _, -, -, hbool⟩ | ⟨_, -, -, hbool⟩
  · cases hread.symm.trans hbool
  · cases hread.symm.trans hbool
  · cases hread.symm.trans hbool
    exact ⟨_, rfl⟩

/-- A failure of a sequence is one of its first or of its second step. -/
theorem error_of_bind {α β : Type} {x : Except Error α} {f : α → Except Error β} {e : Error}
    (h : x.bind f = .error e) : x = .error e ∨ ∃ a, f a = .error e := by
  cases x with
  | error cause =>
      cases h
      exact .inl rfl
  | ok a => exact .inr ⟨a, h⟩

/-- A sequence succeeds if both of its steps do. -/
theorem ok_of_bind {α β : Type} {x : Except Error α} {f : α → Except Error β} {b : β}
    (h : x.bind f = .ok b) : ∃ a, x = .ok a ∧ f a = .ok b := by
  cases x with
  | error e => cases h
  | ok a => exact ⟨a, rfl, h⟩

namespace Vorbis.Samples

theorem exists_fault_of_number {options : OptionTable} {name : String} {fallback : Nat}
    {fits : Nat → Bool} {fault : Nat → ConfigurationFault} {e : Error}
    (h : number options name fallback fits fault = .error e) :
    ∃ fault, e = .configuration fault := by
  unfold number at h
  split at h
  · next hread =>
      cases h
      exact OptionTable.exists_fault_of_getBelow hread
  · cases h
  · split at h
    · cases h
    · cases h
      exact ⟨_, rfl⟩

theorem exists_fault_of_qualityOf {options : OptionTable} {e : Error}
    (h : qualityOf options = .error e) :
    ∃ fault, e = .configuration fault := by
  unfold qualityOf at h
  split at h
  · cases h
  · split at h
    · cases h
      exact ⟨_, rfl⟩
    · split at h
      · cases h
      · cases h
        exact ⟨_, rfl⟩

theorem exists_fault_of_ofOptions {options : OptionTable} {e : Error}
    (h : ofOptions options = .error e) :
    ∃ fault, e = .configuration fault := by
  unfold ofOptions at h
  -- the options are read in their order, and the first that is refused decides
  rcases error_of_bind h with hrate | ⟨_, h⟩
  · exact exists_fault_of_number hrate
  rcases error_of_bind h with hchannels | ⟨_, h⟩
  · exact exists_fault_of_number hchannels
  rcases error_of_bind h with hbits | ⟨_, h⟩
  · exact exists_fault_of_number hbits
  rcases error_of_bind h with hquality | ⟨_, h⟩
  · exact exists_fault_of_qualityOf hquality
  · cases h

end Vorbis.Samples

theorem Divx.Encoder.exists_fault_of_configure {options : OptionTable} {s : Encoder} {e : Error}
    (h : (s.configure options).result = .error e) : ∃ fault, e = .configuration fault := by
  unfold configure at h
  split at h
  · next hflag =>
      cases h
      exact OptionTable.exists_fault_of_flag hflag
  · split at h
    · next hlimit =>
        cases h
        exact OptionTable.exists_fault_of_getBelow hlimit
    · cases h
      exact ⟨_, rfl⟩
    · cases h

namespace Builtin

/-- An instance cannot be configured only where an option is wrong. -/
theorem exists_fault_of_configure {s : Builtin} {options : OptionTable} {e : Error}
    (h : (Plugin.configure options s).result = .error e) : ∃ fault, e = .configuration fault := by
  cases s with
  | divxEncoder s => exact Divx.Encoder.exists_fault_of_configure h
  | vorbisEncoder s =>
      simp only [Plugin.configure, lift, Vorbis.Encoder.configure] at h
      split at h
      · next hoptions =>
          cases h
          exact Vorbis.Samples.exists_fault_of_ofOptions hoptions
      · cases h
  | passthrough s | discard s | divxDecoder s | vorbisDecoder s => cases h

/-! ## Tools -/

/-- The tool of an invocation is declared. -/
theorem tool_mem_of_invocation {s : Builtin} {call : Invocation}
    (h : Plugin.invocation s = some call) :
    call.tool ∈ (Plugin.descriptor s).tools := by
  cases s with
  | vorbisEncoder s =>
      cases h
      exact List.mem_cons_self
  | vorbisDecoder s =>
      cases h
      exact List.mem_cons_self
  | passthrough s | discard s | divxEncoder s | divxDecoder s => cases h

/-- An instance that calls a tool declares itself as external. -/
theorem isExternal_of_invocation {s : Builtin} (h : (Plugin.invocation s).isSome = true) :
    (Plugin.descriptor s).isExternal = true := by
  cases s with
  | vorbisEncoder s =>
      show Vorbis.encoderDescriptor.isExternal = true
      decide
  | vorbisDecoder s =>
      show Vorbis.decoderDescriptor.isExternal = true
      decide
  | passthrough s | discard s | divxEncoder s | divxDecoder s => cases h

end Builtin

end Transcode
