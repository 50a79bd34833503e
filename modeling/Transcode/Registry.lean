import Transcode.Plugin
/-!
# The plugin registry

Encoders and decoders are kept in two tables, so one name may stand for a plugin of each kind.
Within a kind a name is registered once. Look-ups ignore letter case and white space around the
name. Besides by name, plugins are found by format, the most suitable ones first.
-/

set_option autoImplicit false

namespace Transcode

/-- A registered plugin: what it declares, and a fresh instance or why there is none. -/
structure RegistryEntry (σ : Type) where
  descriptor : Descriptor
  fresh : Except Error σ

/-- The plugins at hand, each table in the order of registration. -/
structure Registry (σ : Type) where
  encoders : List (RegistryEntry σ) := []
  decoders : List (RegistryEntry σ) := []

namespace Registry

variable {σ : Type}

/-- The registry without plugins. -/
def empty : Registry σ := {}

/-- The plugins of one kind. -/
def table (r : Registry σ) : PluginKind → List (RegistryEntry σ)
  | .encoder => r.encoders
  | .decoder => r.decoders

/-- The plugin of one kind with exactly this name. -/
def entry? (r : Registry σ) (kind : PluginKind) (name : String) : Option (RegistryEntry σ) :=
  (r.table kind).find? fun e => e.descriptor.name = name

/-- Adds a plugin to the table of its kind. -/
def add (r : Registry σ) (e : RegistryEntry σ) : Registry σ :=
  match e.descriptor.kind with
  | .encoder => { r with encoders := r.encoders ++ [e] }
  | .decoder => { r with decoders := r.decoders ++ [e] }

/-- A plugin as messages name it. -/
def label (kind : PluginKind) (name : String) : String :=
  s!"{kind.label} '{name}'"

/-- Registers a plugin, unless its kind has one of that name. -/
def register (r : Registry σ) (d : Descriptor) (fresh : Except Error σ) :
    Turn (Registry σ) Unit :=
  match r.entry? d.kind d.name with
  | some _ => { result := .error (.duplicateName (label d.kind d.name)), state := r }
  | none =>
      { result := .ok (), state := r.add ⟨d, fresh⟩
        lines := [⟨.debug, s!"注册插件: {d.name} ({d.kind.label}), 格式 [{d.formatsText}]"⟩] }

/-- Checks a draft and registers it. -/
def registerDraft (r : Registry σ) (draft : Descriptor) (fresh : Except Error σ) :
    Turn (Registry σ) Unit :=
  match draft.check with
  | .ok d => r.register d fresh
  | .error e => { result := .error e, state := r }

/-- Registers plugins one after another. The first failure ends it, and what was registered before
stays. -/
def registerAll (r : Registry σ) : List (Descriptor × Except Error σ) → Turn (Registry σ) Unit
  | [] => { result := .ok (), state := r }
  | (draft, fresh) :: rest =>
      let here := r.registerDraft draft fresh
      match here.result with
      | .error _ => here
      | .ok () =>
          let after := here.state.registerAll rest
          { after with lines := here.lines ++ after.lines }

/-- Looks a plugin up by name. -/
def find (r : Registry σ) (kind : PluginKind) (name : String) :
    Except Error (RegistryEntry σ) :=
  match r.entry? kind (Descriptor.normalName name) with
  | some e => .ok e
  | none => .error (.pluginNotFound (label kind name))

/-- The descriptor of a plugin. -/
def resolve (r : Registry σ) (kind : PluginKind) (name : String) : Except Error Descriptor :=
  (r.find kind name).map RegistryEntry.descriptor

/-- A fresh instance of a plugin. -/
def create (r : Registry σ) (kind : PluginKind) (name : String) : Except Error σ :=
  (r.find kind name).bind RegistryEntry.fresh

/-- The number of plugins. -/
def size (r : Registry σ) : Nat :=
  r.encoders.length + r.decoders.length

/-- The descriptors of one kind. -/
def descriptors (r : Registry σ) (kind : PluginKind) : List Descriptor :=
  (r.table kind).map RegistryEntry.descriptor

/-- The descriptors of one kind, by name. -/
def list (r : Registry σ) (kind : PluginKind) : List Descriptor :=
  (r.descriptors kind).mergeSort fun a b => a.name ≤ b.name

/-- What decides between plugins for one format, the first difference first: the place of the format
in the plugin's list, the number of tools it needs, video before audio, and the name. -/
structure Suitability where
  rank : Nat
  tools : Nat
  audio : Nat
  name : String
deriving DecidableEq

/-- The suitability of a plugin for a format it supports. -/
def suitability? (format : FormatTag) (d : Descriptor) : Option Suitability :=
  (d.formats.findIdx? (· == format)).map fun rank =>
    { rank, tools := d.tools.length, audio := if d.media = .audio then 1 else 0, name := d.name }

/-- Whether one suitability comes no later than another. -/
def Suitability.le (a b : Suitability) : Bool :=
  if a.rank ≠ b.rank then a.rank < b.rank
  else if a.tools ≠ b.tools then a.tools < b.tools
  else if a.audio ≠ b.audio then a.audio < b.audio
  else a.name ≤ b.name

/-- The plugins of one kind that support a format, the most suitable first. -/
def suited (r : Registry σ) (kind : PluginKind) (format : FormatTag) : List Descriptor :=
  let found := (r.descriptors kind).filterMap fun d =>
    (suitability? format d).map fun s => (s, d)
  (found.mergeSort fun a b => a.1.le b.1).map Prod.snd

/-- The plugins of one kind that support a format, as looked up for a user. -/
def resolveForFormat (r : Registry σ) (kind : PluginKind) (format : FormatTag) :
    Logged (List Descriptor) :=
  let found := r.suited kind format
  let names := ", ".intercalate (found.map Descriptor.name)
  { value := found, lines := [⟨.debug, s!"格式 {format.text} 的{kind.label}: [{names}]"⟩] }

end Registry

end Transcode
