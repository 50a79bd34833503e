import Mathlib.Data.Prod.Lex
import Transcode.Proofs.Registrations
/-!
# Plugins ranked for a format

Among the plugins for a format the better one comes first (`Registry.Precedes`). The order is that
of a key with four parts (`Registry.Suitability.key`), the last of which is the name. As no two
plugins of a kind have one name, the keys are all different, so the ranking is strict and does not
depend on the order in which the plugins come (`Registry.suited_eq_of_perm`).
-/

set_option autoImplicit false

namespace Transcode.Registry

variable {σ : Type} {r r' : Registry σ} {kind : PluginKind} {format : FormatTag}

/-! ## Keys -/

/-- The parts of a suitability, the first difference first. -/
def Suitability.key (s : Suitability) : ℕ ×ₗ ℕ ×ₗ ℕ ×ₗ String :=
  toLex (s.rank, toLex (s.tools, toLex (s.audio, s.name)))

theorem Suitability.le_iff (a b : Suitability) : a.le b = true ↔ a.key ≤ b.key := by
  simp only [key, Prod.Lex.toLex_le_toLex, le]
  by_cases hrank : a.rank = b.rank
  · by_cases htools : a.tools = b.tools
    · by_cases haudio : a.audio = b.audio
      · simp [hrank, htools, haudio]
      · simp [hrank, htools, haudio]
    · simp [hrank, htools]
  · simp [hrank]

/-- The suitability of a plugin for a format that it declares. -/
def suitability (format : FormatTag) (d : Descriptor) : Suitability :=
  { rank := d.formats.idxOf format, tools := d.tools.length,
    audio := if d.media = .audio then 1 else 0, name := d.name }

theorem suitability?_eq (format : FormatTag) (d : Descriptor) :
    suitability? format d = if format ∈ d.formats then some (suitability format d) else none := by
  by_cases hmem : format ∈ d.formats
  · have hrank : d.formats.findIdx? (· == format) = some (d.formats.idxOf format) :=
      List.findIdx?_eq_some_iff_findIdx_eq.2 ⟨List.idxOf_lt_length_of_mem hmem, rfl⟩
    rw [if_pos hmem, suitability?, hrank]
    rfl
  · have hrank : d.formats.findIdx? (· == format) = none := by
      apply List.findIdx?_eq_none_iff.2
      intro other hother
      exact beq_false_of_ne fun heq => hmem (heq ▸ hother)
    rw [if_neg hmem, suitability?, hrank]
    rfl

/-- The plugins that declare a format, sorted by their keys. -/
theorem suited_eq (r : Registry σ) (kind : PluginKind) (format : FormatTag) :
    r.suited kind format = ((r.descriptors kind).filter fun d => format ∈ d.formats).mergeSort
      fun a b => (suitability format a).le (suitability format b) := by
  have hfound :
    ((r.descriptors kind).filterMap fun d => (suitability? format d).map fun s => (s, d)) =
      ((r.descriptors kind).filter fun d => format ∈ d.formats).map
        fun d => (suitability format d, d) := by
    induction r.descriptors kind with
    | nil => rfl
    | cons d rest ih =>
        by_cases hmem : format ∈ d.formats
        · simp [suitability?_eq, hmem, ← ih]
        · simp [suitability?_eq, hmem, ← ih]
  have hsorted := List.map_mergeSort (l := (r.descriptors kind).filter fun d => format ∈ d.formats)
    (f := fun d => (suitability format d, d)) (s := fun a b => a.1.le b.1)
    (r := fun a b => (suitability format a).le (suitability format b)) fun _ _ _ _ => rfl
  rw [suited, hfound, ← hsorted, List.map_map]
  exact List.map_id _

theorem keys_nodup (nodup : ((r.descriptors kind).map Descriptor.name).Nodup) :
    (((r.descriptors kind).filter fun d => format ∈ d.formats).map
      fun d => (suitability format d).key).Nodup := by
  have hnames :
    (((r.descriptors kind).filter fun d => format ∈ d.formats).map Descriptor.name).Nodup :=
    nodup.sublist (List.filter_sublist.map _)
  -- the name is the last part of the key
  apply List.Nodup.of_map fun k : ℕ ×ₗ ℕ ×ₗ ℕ ×ₗ String => (ofLex (ofLex (ofLex k).2).2).2
  rw [List.map_map]
  exact hnames

/-- Plugins of different names are ranked in the same way in whatever order they stand. -/
theorem suited_eq_of_perm (nodup : ((r.descriptors kind).map Descriptor.name).Nodup)
    (perm : (r'.descriptors kind).Perm (r.descriptors kind)) :
    r'.suited kind format = r.suited kind format := by
  rw [suited_eq, suited_eq]
  apply mergeSort_eq_of_perm _ (keys_nodup nodup) (perm.filter _)
  intro a b
  exact Suitability.le_iff _ _

/-! ## The ranking -/

/-- One plugin comes before another for a format. It has the format further up in its list; or it
needs fewer tools; or it is for video and the other one for audio; or its name is the smaller one,
byte by byte. -/
inductive Precedes (format : FormatTag) (a b : Descriptor) : Prop where
  | rank (less : a.formats.idxOf format < b.formats.idxOf format)
  | tools (rank : a.formats.idxOf format = b.formats.idxOf format)
      (less : a.tools.length < b.tools.length)
  | media (rank : a.formats.idxOf format = b.formats.idxOf format)
      (tools : a.tools.length = b.tools.length) (video : a.media = .video)
      (audio : b.media = .audio)
  | name (rank : a.formats.idxOf format = b.formats.idxOf format)
      (tools : a.tools.length = b.tools.length) (media : a.media = b.media)
      (less : Utf8.encode a.name < Utf8.encode b.name)

theorem precedes_of_key_lt {a b : Descriptor}
    (less : (suitability format a).key < (suitability format b).key) : Precedes format a b := by
  simp only [Suitability.key, suitability, Prod.Lex.toLex_lt_toLex] at less
  rcases less with hrank | ⟨hrank, htools | ⟨htools, haudio | ⟨haudio, hname⟩⟩⟩
  · exact .rank hrank
  · exact .tools hrank htools
  · cases ha : a.media with
    | video =>
        cases hb : b.media with
        | video => simp [ha, hb] at haudio
        | audio => exact .media hrank htools ha hb
    | audio => cases hb : b.media <;> simp [ha, hb] at haudio
  · have hmedia : a.media = b.media := by
      cases ha : a.media <;> cases hb : b.media <;> simp [ha, hb] at haudio ⊢
    exact .name hrank htools hmedia (Utf8.encode_lt_encode hname)

theorem suited_pairwise (nodup : ((r.descriptors kind).map Descriptor.name).Nodup) :
    (r.suited kind format).Pairwise (Precedes format) := by
  have hsorted : (r.suited kind format).Pairwise fun a b =>
      (suitability format a).key < (suitability format b).key := by
    rw [suited_eq]
    apply pairwise_mergeSort_lt _ (keys_nodup nodup)
    intro a b
    exact Suitability.le_iff _ _
  exact hsorted.imp precedes_of_key_lt

/-! ## Orders of registration -/

/-- Calls that answer to different names all succeed. -/
theorem Holds.succeeding_eq {done calls : List (Registration σ)} (holds : r.Holds done)
    (distinct : (done ++ calls).Pairwise fun b c => ¬ b.Answers c.descriptor.kind c.given) :
    r.succeeding calls = calls := by
  induction calls generalizing r done with
  | nil => rfl
  | cons c rest ih =>
      rcases holds.perform c with ⟨⟨b, hb, hanswers⟩, -, -⟩ | ⟨-, hresult, hholds⟩
      · exact absurd hanswers ((List.pairwise_append.1 distinct).2.2 b hb c List.mem_cons_self)
      · simp only [succeeding, hresult]
        rw [ih hholds (by simpa using distinct)]

/-- Registrations of the same plugins give permuted descriptors. -/
theorem descriptors_perm {calls calls' : List (Registration σ)}
    (same : ∀ d, (∃ c ∈ empty.succeeding calls', c.descriptor = d) ↔
      ∃ c ∈ empty.succeeding calls, c.descriptor = d) (kind : PluginKind) :
    ((registerEach calls').descriptors kind).Perm ((registerEach calls).descriptors kind) := by
  have holds := holds_registerEach calls
  have holds' := holds_registerEach calls'
  apply (List.perm_ext_iff_of_nodup (holds'.names_nodup kind).of_map
    (holds.names_nodup kind).of_map).2
  intro d
  rw [holds'.mem_descriptors, holds.mem_descriptors, same]

/-- The plugins found for a format are those of the kind that declare it, each once, and each comes
before all that follow it. Only the plugins that are registered matter: not the order of the calls,
nor that of the tables. -/
theorem resolveForFormat_ranks (calls : List (Registration σ)) (kind : PluginKind)
    (format : FormatTag) :
    let r := registerEach calls
    let found := (r.resolveForFormat kind format).value
    (∀ d, d ∈ found ↔
      (∃ c ∈ empty.succeeding calls, c.descriptor = d) ∧ d.kind = kind ∧ format ∈ d.formats) ∧
    found.Nodup ∧ found.Pairwise (Precedes format) ∧
    (∀ calls' : List (Registration σ),
      (∀ d, (∃ c ∈ empty.succeeding calls', c.descriptor = d) ↔
        ∃ c ∈ empty.succeeding calls, c.descriptor = d) →
      (registerEach calls').resolveForFormat kind format = r.resolveForFormat kind format) ∧
    (empty.succeeding calls = calls → ∀ calls' : List (Registration σ), calls'.Perm calls →
      (registerEach calls').resolveForFormat kind format = r.resolveForFormat kind format) ∧
    ∀ r' : Registry σ, (r'.table kind).Perm (r.table kind) →
      r'.resolveForFormat kind format = r.resolveForFormat kind format := by
  intro r found
  have holds : r.Holds (empty.succeeding calls) := holds_registerEach calls
  have hnames := holds.names_nodup kind
  -- what is found, and what is logged of it, is all in the ranking
  have hranking : ∀ r' : Registry σ, (r'.descriptors kind).Perm (r.descriptors kind) →
      r'.resolveForFormat kind format = r.resolveForFormat kind format := by
    intro r' hperm
    simp only [resolveForFormat, suited_eq_of_perm hnames hperm]
  refine ⟨?_, ?_, suited_pairwise hnames, ?_, ?_, ?_⟩
  · intro d
    show d ∈ r.suited kind format ↔ _
    rw [mem_suited, holds.mem_descriptors]
    tauto
  · show (r.suited kind format).Nodup
    rw [suited_eq, (List.mergeSort_perm _ _).nodup_iff]
    exact hnames.of_map.filter _
  · intro calls' hsame
    exact hranking _ (descriptors_perm hsame kind)
  · intro hall calls' hperm
    have hsymm : ∀ {b c : Registration σ}, ¬ b.Answers c.descriptor.kind c.given →
        ¬ c.Answers b.descriptor.kind b.given := by
      intro b c hb hc
      exact hb ⟨hc.1.symm, hc.2.symm⟩
    have hdistinct := (hperm.pairwise_iff hsymm).2 (hall ▸ holds.distinct)
    have hall' := holds_empty.succeeding_eq hdistinct
    apply hranking _ (descriptors_perm _ kind)
    intro d
    simp only [hall, hall', hperm.mem_iff]
  · intro r' hperm
    exact hranking r' (hperm.map _)

/-- A plugin that prefers another format to raw media. -/
def boxed : Registration Unit where
  given := "box"
  descriptor := Descriptor.drafted "box" .encoder .video [.format "avi", .format "raw"]
  fresh := .ok ()
  built := ⟨.encoder, .video, [.format "avi", .format "raw"], by decide +kernel⟩

/-- A plugin for raw media alone. -/
def bare : Registration Unit where
  given := "raw"
  descriptor := Descriptor.drafted "raw" .encoder .video [.format "raw"]
  fresh := .ok ()
  built := ⟨.encoder, .video, [.format "raw"], by decide +kernel⟩

/-- Both are found, in whichever order they are registered. -/
theorem resolveForFormat_ranks_swapped :
    empty.succeeding [boxed, bare] = [boxed, bare] ∧
    (∀ c ∈ [boxed, bare],
      c.descriptor ∈ ((registerEach [boxed, bare]).resolveForFormat .encoder ⟨"RAW"⟩).value) ∧
    (registerEach [bare, boxed]).resolveForFormat .encoder ⟨"RAW"⟩ =
      (registerEach [boxed, bare]).resolveForFormat .encoder ⟨"RAW"⟩ := by
  have hall : empty.succeeding [boxed, bare] = [boxed, bare] := by
    have hother : ¬ boxed.Answers bare.descriptor.kind bare.given := by decide +kernel
    exact holds_empty.succeeding_eq (List.pairwise_pair.2 hother)
  have hboth : ∀ c ∈ [boxed, bare], c.descriptor.kind = .encoder ∧
      ⟨"RAW"⟩ ∈ c.descriptor.formats := by
    decide +kernel
  obtain ⟨hfound, -, -, -, hswapped, -⟩ := resolveForFormat_ranks [boxed, bare] .encoder ⟨"RAW"⟩
  rw [hall] at hfound
  refine ⟨hall, ?_, hswapped hall [bare, boxed] (.swap boxed bare [])⟩
  intro c hc
  exact (hfound c.descriptor).2 ⟨⟨c, hc, rfl⟩, hboth c hc⟩

end Transcode.Registry
