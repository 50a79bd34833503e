import Mathlib.Data.List.Nodup
import Mathlib.Data.String.Basic
import Transcode.Proofs.ByteOrder
import Transcode.Proofs.Drafts
import Transcode.Registry
/-!
# Registrations

A registry comes about by registrations, of which some are refused. It holds exactly the entries of
the successful registrations, in their order (`Registry.Holds`): one registration preserves this
(`Registry.Holds.perform`), and so does a list of them (`Registry.Holds.run`). All answers of a
registry follow from it (`Registry.registerEach_answers`).
-/

set_option autoImplicit false

namespace Transcode

/-! ## Sorting -/

section Sorting

variable {α K : Type} [LinearOrder K] {le : α → α → Bool} {key : α → K} {l l' : List α}

/-- Sorted by keys that are all different, a list is in their strict order. -/
theorem pairwise_mergeSort_lt
    (le_iff : ∀ a b, le a b = true ↔ key a ≤ key b) (nodup : (l.map key).Nodup) :
    (l.mergeSort le).Pairwise fun a b => key a < key b := by
  have hsorted : (l.mergeSort le).Pairwise fun a b => le a b = true := by
    apply List.pairwise_mergeSort
    · intro a b c hab hbc
      rw [le_iff] at hab hbc ⊢
      exact hab.trans hbc
    · intro a b
      simpa only [Bool.or_eq_true, le_iff] using le_total (key a) (key b)
  have hdistinct : (l.mergeSort le).Pairwise fun a b => key a ≠ key b := by
    have hperm := (List.mergeSort_perm l le).map key
    exact List.pairwise_map.1 (hperm.nodup_iff.2 nodup)
  apply (hsorted.and hdistinct).imp
  rintro a b ⟨hle, hne⟩
  exact lt_of_le_of_ne ((le_iff a b).1 hle) hne

/-- The order in which a list comes does not matter then. -/
theorem mergeSort_eq_of_perm (le_iff : ∀ a b, le a b = true ↔ key a ≤ key b)
    (nodup : (l.map key).Nodup)
    (perm : l'.Perm l) : l'.mergeSort le = l.mergeSort le := by
  have hsorted := pairwise_mergeSort_lt le_iff nodup
  have hsorted' := pairwise_mergeSort_lt le_iff ((perm.map key).nodup_iff.2 nodup)
  apply List.Perm.eq_of_pairwise _ hsorted' hsorted
  · exact ((List.mergeSort_perm l' le).trans perm).trans (List.mergeSort_perm l le).symm
  · intro a b _ _ hab hba
    exact absurd hba hab.asymm

end Sorting

/-! ## Tables -/

namespace Registry

variable {σ : Type} {registry : Registry σ} {kind : PluginKind} {d : Descriptor}
  {format : FormatTag}

/-- The registries that registering plugins leads to. -/
inductive Reachable : Registry σ → Prop where
  | empty : Reachable empty
  | register {registry : Registry σ} (reachable : Reachable registry) (d : Descriptor)
      (fresh : Except Error σ) : Reachable (registry.register d fresh).state

theorem table_add (registry : Registry σ) (e : RegistryEntry σ) (kind : PluginKind) :
    (registry.add e).table kind =
      if e.descriptor.kind = kind then registry.table kind ++ [e] else registry.table kind := by
  unfold add
  cases e.descriptor.kind <;> cases kind <;> rfl

/-- A plugin stands in the table of its kind. -/
theorem Reachable.kind_eq (reachable : registry.Reachable) {e : RegistryEntry σ}
    (mem : e ∈ registry.table kind) : e.descriptor.kind = kind := by
  induction reachable with
  | empty => cases kind <;> cases mem
  | @register registry _ d fresh ih =>
      unfold Registry.register at mem
      split at mem
      · exact ih mem
      · rw [table_add] at mem
        split at mem
        · next hkind =>
            rcases List.mem_append.1 mem with hmem | hmem
            · exact ih hmem
            · obtain rfl := List.mem_singleton.1 hmem
              exact hkind
        · exact ih mem

theorem Reachable.kind_of_mem (reachable : registry.Reachable)
    (mem : d ∈ registry.descriptors kind) :
    d.kind = kind := by
  obtain ⟨e, he, rfl⟩ := List.mem_map.1 mem
  exact reachable.kind_eq he

/-- A plugin that is found by name is one of that kind. -/
theorem mem_of_resolve {name : String} (h : registry.resolve kind name = .ok d) :
    d ∈ registry.descriptors kind := by
  unfold resolve find at h
  split at h
  · next e hentry =>
      cases h
      exact List.mem_map_of_mem (List.mem_of_find?_eq_some hentry)
  · cases h

/-- The plugins for a format are those that declare it. -/
theorem mem_suited : d ∈ registry.suited kind format ↔
    d ∈ registry.descriptors kind ∧ format ∈ d.formats := by
  simp only [suited, List.mem_map, List.mem_mergeSort, List.mem_filterMap, suitability?,
    Option.map_map, Option.map_eq_some_iff]
  constructor
  · rintro ⟨_, ⟨d', hd', rank, hrank, rfl⟩, rfl⟩
    obtain ⟨hlength, hformat, -⟩ := List.findIdx?_eq_some_iff_getElem.1 hrank
    refine ⟨hd', ?_⟩
    rw [← beq_iff_eq.1 hformat]
    exact List.getElem_mem hlength
  · rintro ⟨hd, hformat⟩
    cases hrank : d.formats.findIdx? (· == format) with
    | some rank => exact ⟨_, ⟨d, hd, rank, hrank, rfl⟩, rfl⟩
    | none =>
        have hdiffers := List.findIdx?_eq_none_iff.1 hrank format hformat
        simp at hdiffers

end Registry

/-! ## Calls -/

/-- A call that registers a plugin: the name its draft was given, and what the draft has led to. -/
structure Registration (σ : Type) where
  given : String
  descriptor : Descriptor
  fresh : Except Error σ
  built : Descriptor.BuiltAs given descriptor

namespace Registration

variable {σ : Type} {c : Registration σ} {kind : PluginKind} {name : String}

/-- The entry that a call adds to a table. -/
def entry (c : Registration σ) : RegistryEntry σ :=
  ⟨c.descriptor, c.fresh⟩

/-- The call is one for this kind and, up to letter case and white space around it, for this name.
-/
def Answers (c : Registration σ) (kind : PluginKind) (name : String) : Prop :=
  c.descriptor.kind = kind ∧ Descriptor.normalName c.given = Descriptor.normalName name

instance : Decidable (c.Answers kind name) :=
  inferInstanceAs (Decidable (_ ∧ _))

theorem answers_iff : c.Answers kind name ↔
    c.descriptor.kind = kind ∧ c.descriptor.name = Descriptor.normalName name := by
  rw [Answers, c.built.name_eq]

theorem Answers.trans {b : Registration σ} (hb : b.Answers c.descriptor.kind c.given)
    (hc : c.Answers kind name) : b.Answers kind name :=
  ⟨hb.1.trans hc.1, hb.2.trans hc.2⟩

end Registration

namespace Registry

variable {σ : Type} {r : Registry σ} {done calls : List (Registration σ)} {kind : PluginKind}

/-- Makes one call. -/
def perform (r : Registry σ) (c : Registration σ) : Turn (Registry σ) Unit :=
  r.register c.descriptor c.fresh

/-- The registry after a list of calls, successful or not. -/
def performEach (r : Registry σ) (calls : List (Registration σ)) : Registry σ :=
  calls.foldl (fun r c => (r.perform c).state) r

/-- The registry built from nothing by a list of calls. -/
def registerEach (calls : List (Registration σ)) : Registry σ :=
  empty.performEach calls

/-- The successful calls of a list. -/
def succeeding (r : Registry σ) : List (Registration σ) → List (Registration σ)
  | [] => []
  | c :: rest =>
      match (r.perform c).result with
      | .ok () => c :: (r.perform c).state.succeeding rest
      | .error _ => (r.perform c).state.succeeding rest

/-! ## The entries of a registry -/

/-- A registry with just the plugins of these calls, in their order, no two of which answer to one
name. -/
structure Holds (r : Registry σ) (done : List (Registration σ)) : Prop where
  table_eq : ∀ kind, r.table kind =
    (done.filter fun c => c.descriptor.kind = kind).map Registration.entry
  distinct : done.Pairwise fun b c => ¬ b.Answers c.descriptor.kind c.given

theorem holds_empty : (empty : Registry σ).Holds [] where
  table_eq := by
    intro kind
    cases kind <;> rfl
  distinct := .nil

theorem Holds.entry?_eq (holds : r.Holds done) (kind : PluginKind) (name : String) :
    r.entry? kind (Descriptor.normalName name) =
      (done.find? fun c => c.Answers kind name).map Registration.entry := by
  simp only [Registration.answers_iff]
  generalize Descriptor.normalName name = key
  rw [ entry?, holds.table_eq, List.find?_map, List.find?_filter]
  congr 2
  funext c
  apply decide_eq_decide.2
  rw [decide_eq_true_eq]
  exact and_congr_right fun _ => decide_eq_true_iff

/-- A call is refused where an earlier one answers to its name, and the registry then stays as it
is; else the registry holds its plugin too. -/
theorem Holds.perform (holds : r.Holds done) (c : Registration σ) :
    (∃ b ∈ done, b.Answers c.descriptor.kind c.given) ∧
        (r.perform c).result = .error (.duplicateName (label c.descriptor.kind c.descriptor.name)) ∧
        (r.perform c).state = r ∨
      (∀ b ∈ done, ¬ b.Answers c.descriptor.kind c.given) ∧ (r.perform c).result = .ok () ∧
        (r.perform c).state.Holds (done ++ [c]) := by
  have hentry := holds.entry?_eq c.descriptor.kind c.given
  rw [← c.built.name_eq] at hentry
  cases hfound : done.find? fun b => b.Answers c.descriptor.kind c.given with
  | some b =>
      have hanswers := List.find?_some hfound
      rw [decide_eq_true_eq] at hanswers
      rw [hfound, Option.map_some] at hentry
      refine .inl ⟨⟨b, List.mem_of_find?_eq_some hfound, hanswers⟩, ?_, ?_⟩
      · simp only [Registry.perform, register, hentry]
      · simp only [Registry.perform, register, hentry]
  | none =>
      have hnone : ∀ b ∈ done, ¬ b.Answers c.descriptor.kind c.given := by
        intro b hb hanswers
        exact List.find?_eq_none.1 hfound b hb (decide_eq_true hanswers)
      rw [hfound, Option.map_none] at hentry
      have hstate : (r.perform c).state = r.add c.entry := by
        simp only [Registry.perform, register, hentry, Registration.entry]
      refine .inr ⟨hnone, by simp only [Registry.perform, register, hentry], ?_, ?_⟩
      · intro kind
        rw [hstate, table_add, holds.table_eq, List.filter_append, List.map_append]
        by_cases hkind : c.descriptor.kind = kind
        · simp [Registration.entry, hkind]
        · simp [Registration.entry, hkind]
      · apply List.pairwise_append.2
        refine ⟨holds.distinct, List.pairwise_singleton _ _, ?_⟩
        intro b hb c' hc'
        obtain rfl := List.mem_singleton.1 hc'
        exact hnone b hb

/-- A list of calls preserves the correspondence: the registry holds the entries of the successful
calls. -/
theorem Holds.run (holds : r.Holds done) (calls : List (Registration σ)) :
    (r.performEach calls).Holds (done ++ r.succeeding calls) := by
  induction calls generalizing r done with
  | nil => simpa [performEach, succeeding] using holds
  | cons c rest ih =>
      rcases holds.perform c with ⟨-, hresult, hstate⟩ | ⟨-, hresult, hholds⟩
      · have hrest := ih (hstate ▸ holds)
        simpa [performEach, succeeding, hresult] using hrest
      · have hrest := ih hholds
        simpa [performEach, succeeding, hresult] using hrest

theorem holds_registerEach (calls : List (Registration σ)) :
    (registerEach calls).Holds (empty.succeeding calls) :=
  holds_empty.run calls

/-- The first call that answers to a name is one that succeeds. -/
theorem Holds.find?_succeeding (holds : r.Holds done) (calls : List (Registration σ))
    (kind : PluginKind) (name : String) :
    (done ++ r.succeeding calls).find? (fun c => c.Answers kind name) =
      (done ++ calls).find? fun c => c.Answers kind name := by
  induction calls generalizing r done with
  | nil => rfl
  | cons c rest ih =>
      rcases holds.perform c with ⟨⟨b, hb, hanswers⟩, hresult, hstate⟩ | ⟨-, hresult, hholds⟩
      · have hrest := ih (hstate ▸ holds)
        rw [succeeding, hresult]
        dsimp only
        rw [hrest, List.find?_append, List.find?_append]
        -- a name to which the refused call answers is one to which an earlier call has answered
        cases hfound : done.find? fun c => c.Answers kind name with
        | some b' => rfl
        | none =>
            have hc : ¬ c.Answers kind name := by
              intro hc
              exact List.find?_eq_none.1 hfound b hb (decide_eq_true (hanswers.trans hc))
            rw [List.find?_cons_of_neg (by simpa using hc)]
      · have hrest := ih hholds
        rw [succeeding, hresult]
        simpa using hrest

/-! ## The answers of a registry -/

/-- Only one of the calls answers to a name. -/
theorem Holds.find?_eq_some (holds : r.Holds done) {c : Registration σ} {name : String}
    (mem : c ∈ done)
    (answers : c.Answers kind name) : done.find? (fun c => c.Answers kind name) = some c := by
  obtain ⟨before, after, hsplit⟩ := List.append_of_mem mem
  have hdistinct := hsplit ▸ holds.distinct
  apply List.find?_eq_some_iff_append.2
  refine ⟨decide_eq_true answers, before, after, hsplit, ?_⟩
  intro b hb
  have hb' := (List.pairwise_append.1 hdistinct).2.2 b hb c List.mem_cons_self
  simp only [Bool.not_eq_true', decide_eq_false_iff_not]
  intro hanswers
  exact hb' ⟨hanswers.1.trans answers.1.symm, hanswers.2.trans answers.2.symm⟩

theorem Holds.find_eq (holds : r.Holds done) {c : Registration σ} {name : String} (mem : c ∈ done)
    (answers : c.Answers kind name) : r.find kind name = .ok c.entry := by
  simp only [find, holds.entry?_eq, holds.find?_eq_some mem answers, Option.map_some]

theorem Holds.find_eq_error (holds : r.Holds done) {name : String}
    (unanswered : ∀ c ∈ done, ¬ c.Answers kind name) :
    r.find kind name = .error (.pluginNotFound (label kind name)) := by
  have hfound : done.find? (fun c => c.Answers kind name) = none := by
    apply List.find?_eq_none.2
    intro c hc hanswers
    exact unanswered c hc (of_decide_eq_true hanswers)
  simp only [find, holds.entry?_eq, hfound, Option.map_none]

theorem Holds.mem_descriptors (holds : r.Holds done) {d : Descriptor} :
    d ∈ r.descriptors kind ↔ d.kind = kind ∧ ∃ c ∈ done, c.descriptor = d := by
  simp only [descriptors, holds.table_eq, List.map_map, List.mem_map, List.mem_filter,
    decide_eq_true_eq, Function.comp_apply, Registration.entry]
  constructor
  · rintro ⟨c, ⟨hc, hkind⟩, rfl⟩
    exact ⟨hkind, c, hc, rfl⟩
  · rintro ⟨hkind, c, hc, rfl⟩
    exact ⟨c, ⟨hc, hkind⟩, rfl⟩

/-- Within a kind no name stands twice. -/
theorem Holds.names_nodup (holds : r.Holds done) (kind : PluginKind) :
    ((r.descriptors kind).map Descriptor.name).Nodup := by
  simp only [descriptors, holds.table_eq, List.map_map, List.Nodup, List.pairwise_map,
    Function.comp_apply, Registration.entry]
  apply (holds.distinct.filter _).imp_of_mem
  intro b c hb hc hdistinct hname
  simp only [List.mem_filter, decide_eq_true_eq] at hb hc
  apply hdistinct
  rw [Registration.answers_iff, ← c.built.name_eq]
  exact ⟨hb.2.trans hc.2.symm, hname⟩

theorem Holds.size_eq (holds : r.Holds done) : r.size = done.length := by
  have hdecoder : ∀ c : Registration σ, (!decide (c.descriptor.kind = .encoder)) =
      decide (c.descriptor.kind = .decoder) := by
    intro c
    cases c.descriptor.kind <;> rfl
  have hlength := List.length_eq_length_filter_add (l := done) fun c => c.descriptor.kind = .encoder
  have hsize : r.size = (r.table .encoder).length + (r.table .decoder).length := rfl
  simp only [hdecoder] at hlength
  rw [hsize, holds.table_eq, holds.table_eq, List.length_map, List.length_map, hlength]

theorem Holds.count_list (holds : r.Holds done) {c : Registration σ} (mem : c ∈ done) :
    (r.list c.descriptor.kind).count c.descriptor = 1 := by
  have hmem : c.descriptor ∈ r.descriptors c.descriptor.kind :=
    holds.mem_descriptors.2 ⟨rfl, c, mem, rfl⟩
  rw [list, (List.mergeSort_perm _ _).count_eq,
    (List.Nodup.of_map _ (holds.names_nodup c.descriptor.kind)).count, if_pos hmem]

/-- Each plugin stands in the table of its kind under its normal name, and no other has that name
there. -/
structure IsKeyed (r : Registry σ) : Prop where
  kind_eq : ∀ kind, ∀ d ∈ r.descriptors kind, d.kind = kind
  normal : ∀ kind, ∀ d ∈ r.descriptors kind, Descriptor.normalName d.name = d.name
  once : ∀ kind, ((r.descriptors kind).map Descriptor.name).Nodup

theorem Holds.isKeyed (holds : r.Holds done) : r.IsKeyed where
  kind_eq := by
    intro kind d hd
    exact (holds.mem_descriptors.1 hd).1
  normal := by
    intro kind d hd
    obtain ⟨-, c, -, rfl⟩ := holds.mem_descriptors.1 hd
    rw [c.built.name_eq, Descriptor.normalName_normalName]
  once := holds.names_nodup

/-- Two registries that answer every query about one kind in the same way. -/
structure AgreesOn (kind : PluginKind) (r r' : Registry σ) : Prop where
  resolve_eq : ∀ name, r.resolve kind name = r'.resolve kind name
  create_eq : ∀ name, r.create kind name = r'.create kind name
  list_eq : r.list kind = r'.list kind
  resolveForFormat_eq : ∀ format, r.resolveForFormat kind format = r'.resolveForFormat kind format

theorem AgreesOn.of_table {r r' : Registry σ} (same : r.table kind = r'.table kind) :
    AgreesOn kind r r' where
  resolve_eq := by
    intro name
    simp only [resolve, find, entry?, same]
  create_eq := by
    intro name
    simp only [create, find, entry?, same]
  list_eq := by simp only [list, descriptors, same]
  resolveForFormat_eq := by
    intro format
    simp only [resolveForFormat, suited, descriptors, same]

theorem table_perform (r : Registry σ) {c : Registration σ} (other : c.descriptor.kind ≠ kind) :
    (r.perform c).state.table kind = r.table kind := by
  unfold perform register
  split
  · rfl
  · rw [table_add, if_neg other]

/-- A registry built up by calls, of which some succeed, keeps each kind in its own table and each
name once. It counts the calls that succeed. A further call is refused just where one of them
answers to its kind and name, and changes nothing then; nor does it ever change what is said of the
other kind. A name is looked up as the first call that answers to it, and a list has the plugins of
its kind once each, in the byte order of their names. -/
theorem registerEach_answers (calls : List (Registration σ)) :
    let r := registerEach calls
    let done := empty.succeeding calls
    r.IsKeyed ∧ r.size = done.length ∧
    (∀ c : Registration σ,
      ((∃ e, (r.perform c).result = .error e) ↔ ∃ b ∈ done, b.Answers c.descriptor.kind c.given) ∧
      (∀ e, (r.perform c).result = .error e →
        e = .duplicateName (label c.descriptor.kind c.descriptor.name) ∧ (r.perform c).state = r) ∧
      ∀ kind, c.descriptor.kind ≠ kind → AgreesOn kind (r.perform c).state r) ∧
    (∀ kind name,
      ((∃ d, r.resolve kind name = .ok d) ↔ ∃ c ∈ done, c.Answers kind name) ∧
      (∀ c ∈ done, c.Answers kind name →
        calls.find? (fun c => c.Answers kind name) = some c ∧
        r.resolve kind name = .ok c.descriptor ∧ r.create kind name = c.fresh) ∧
      ((∀ c ∈ done, ¬ c.Answers kind name) →
        r.resolve kind name = .error (.pluginNotFound (label kind name)) ∧
        r.create kind name = .error (.pluginNotFound (label kind name)))) ∧
    (∀ kind, (r.list kind).Pairwise fun a b => Utf8.encode a.name < Utf8.encode b.name) ∧
    (∀ c ∈ done, (r.list c.descriptor.kind).count c.descriptor = 1) ∧
    ∀ kind, ∀ d ∈ r.list kind, d.kind = kind ∧ ∃ c ∈ done, c.descriptor = d := by
  intro r done
  have holds : r.Holds done := holds_registerEach calls
  have hresolve : ∀ kind name, ∀ c ∈ done, c.Answers kind name →
      r.resolve kind name = .ok c.descriptor ∧ r.create kind name = c.fresh := by
    intro kind name c hc hanswers
    simp [resolve, create, holds.find_eq hc hanswers, Except.map, Except.bind, Registration.entry]
  have hnone : ∀ kind name, (∀ c ∈ done, ¬ c.Answers kind name) →
      r.resolve kind name = .error (.pluginNotFound (label kind name)) ∧
      r.create kind name = .error (.pluginNotFound (label kind name)) := by
    intro kind name hnone
    simp [resolve, create, holds.find_eq_error hnone, Except.map, Except.bind]
  refine ⟨holds.isKeyed, holds.size_eq, ?_, ?_, ?_, fun c hc => holds.count_list hc, ?_⟩
  · intro c
    refine ⟨?_, ?_, fun kind hother => .of_table (r.table_perform hother)⟩
    · rcases holds.perform c with ⟨hexists, hresult, -⟩ | ⟨hnone, hresult, -⟩
      · simp [hresult, hexists]
      · simpa [hresult] using hnone
    · intro e he
      rcases holds.perform c with ⟨-, hresult, hstate⟩ | ⟨-, hresult, -⟩
      · rw [hresult] at he
        cases he
        exact ⟨rfl, hstate⟩
      · rw [hresult] at he
        cases he
  · intro kind name
    refine ⟨⟨?_, ?_⟩, ?_, hnone kind name⟩
    · rintro ⟨d, hd⟩
      by_contra hexists
      rw [(hnone kind name fun c hc hanswers => hexists ⟨c, hc, hanswers⟩).1] at hd
      cases hd
    · rintro ⟨c, hc, hanswers⟩
      exact ⟨c.descriptor, (hresolve kind name c hc hanswers).1⟩
    · intro c hc hanswers
      refine ⟨?_, hresolve kind name c hc hanswers⟩
      rw [← holds.find?_eq_some hc hanswers]
      exact (holds_empty.find?_succeeding calls kind name).symm
  · intro kind
    have hsorted : (r.list kind).Pairwise fun a b => a.name < b.name :=
      pairwise_mergeSort_lt (fun _ _ => decide_eq_true_iff) (holds.names_nodup kind)
    exact hsorted.imp fun hless => Utf8.encode_lt_encode hless
  · intro kind d hd
    exact holds.mem_descriptors.1 ((List.mergeSort_perm _ _).mem_iff.1 hd)

/-- Another spelling of a name is the same name: a call with it is refused, and it finds the plugin.
-/
theorem registerEach_answers_spelling :
    ∃ b c : Registration Unit, b.given = " RAW\t" ∧ c.given = "raw" ∧
      ((registerEach [b]).perform c).state = registerEach [b] ∧
      (registerEach [b]).resolve .encoder "Raw\n" = .ok b.descriptor := by
  have hbuilt : ∀ given ∈ [" RAW\t", "raw"],
      (Descriptor.drafted given .encoder .video [.format "raw"]).check =
        .ok (Descriptor.drafted given .encoder .video [.format "raw"]) := by decide +kernel
  have hspelling : Descriptor.normalName " RAW\t" = Descriptor.normalName "raw" ∧
      Descriptor.normalName " RAW\t" = Descriptor.normalName "Raw\n" := by
    decide +kernel
  let b : Registration Unit := ⟨" RAW\t", _, .ok (), _, _, _, hbuilt " RAW\t" (by decide)⟩
  let c : Registration Unit := ⟨"raw", _, .ok (), _, _, _, hbuilt "raw" (by decide)⟩
  have hdone : empty.succeeding [b] = [b] := rfl
  obtain ⟨-, -, hcalls, hnames, -⟩ := registerEach_answers [b]
  rw [hdone] at hcalls hnames
  obtain ⟨hrefused, hunchanged, -⟩ := hcalls c
  obtain ⟨e, he⟩ := hrefused.2 ⟨b, List.mem_singleton_self b, rfl, hspelling.1⟩
  refine ⟨b, c, rfl, rfl, (hunchanged e he).2, ?_⟩
  exact ((hnames .encoder "Raw\n").2.1 b (List.mem_singleton_self b) ⟨rfl, hspelling.2⟩).2.1

end Registry

end Transcode
