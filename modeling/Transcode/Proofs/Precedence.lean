import Transcode.Proofs.FileTree
import Transcode.Proofs.Inference
/-!
# The command line before the profile

An option of a job is decided in layers (`Cli.Decides`): by the switch that keeps partial files,
else by the last pair of the command line that sets it, else by that entry of the profile that sets
it and has the greatest key. The option that an entry sets is determined by its key, so an entry for
a name that the command line sets has no effect, however its key is spelled
(`Cli.mergedOptions_place`). Named plugins and the path for raw audio come from the command line,
else from the profile (`Cli.plan_prefers_command_line`).
-/

set_option autoImplicit false

namespace Transcode

namespace Profile

variable {profile profile' : Profile} {key key' name name' value value' : String} {v v' : Json}
  {options options' : Ordered Json}

/-! ## Entries -/

/-- An entry sets an option: its key and the text of its value are read as a pair. -/
def Sets (key : String) (v : Json) (name value : String) : Prop :=
  ∃ text, valueText key v = .ok text ∧ OptionTable.Sets (key ++ "=" ++ text) name value

theorem pair_eq_ok_iff : pair key v = .ok (name, value) ↔ Sets key v name value := by
  unfold pair Sets
  cases htext : valueText key v with
  | error e => simp [bind, Except.bind]
  | ok text =>
      simp only [bind, Except.bind, Except.ok.injEq, exists_eq_left',
        ← OptionTable.parsePair_eq_ok_iff]
      split
      · next fault hfails => simp [hfails]
      · rfl

/-- The option that an entry sets depends on its key only. -/
theorem Sets.name_eq (sets : Sets key v name value) (sets' : Sets key v' name' value') :
    name = name' := by
  obtain ⟨text, -, hsets⟩ := sets
  obtain ⟨text', -, hsets'⟩ := sets'
  exact OptionTable.key_eq_of_named hsets hsets'

/-- Of the entries that set this name, the one with the greatest key in byte order sets it to this
value. -/
def GreatestSets (options : Ordered Json) (name value : String) : Prop :=
  ∃ key v, (key, v) ∈ options.entries ∧ Sets key v name value ∧
    ∀ key' v' value', (key', v') ∈ options.entries → Sets key' v' name value' →
      Utf8.encode key' ≤ Utf8.encode key

theorem lastGives_iff_greatestSets :
    OptionTable.LastGives (fun entry => Sets entry.1 entry.2) options.entries name value ↔
      GreatestSets options name value := by
  have increasing := options.increasing
  unfold GreatestSets
  generalize options.entries = entries at increasing ⊢
  constructor
  · rintro ⟨before, ⟨key, v⟩, after, rfl, hsets, hafter⟩
    refine ⟨key, v, by simp, hsets, ?_⟩
    intro key' v' value' hmem hsets'
    obtain ⟨-, -, hbefore⟩ := List.pairwise_append.1 increasing
    rcases List.mem_append.1 hmem with hmem | hmem
    · exact List.le_of_lt (Utf8.encode_lt_encode (hbefore _ hmem _ List.mem_cons_self))
    · rcases List.mem_cons.1 hmem with heq | hmem
      · cases heq
        exact List.le_refl _
      · exact absurd hsets' (hafter _ hmem value')
  · rintro ⟨key, v, hmem, hsets, hgreatest⟩
    obtain ⟨before, after, rfl⟩ := List.append_of_mem hmem
    refine ⟨before, (key, v), after, rfl, hsets, ?_⟩
    intro later hlater value' hsets'
    -- what stands further back has a greater key
    have hless := (List.pairwise_cons.1 (List.pairwise_append.1 increasing).2.1).1 later hlater
    have hle := hgreatest later.1 later.2 value' (by simp [hlater]) hsets'
    exact absurd (Utf8.encode_lt_encode hless) (List.not_lt.2 hle)

/-- The value of a name depends on the entries that set it only. -/
theorem GreatestSets.of_mem_iff (greatest : GreatestSets options name value)
    (same : ∀ {k w x}, Sets k w name x → ((k, w) ∈ options.entries ↔ (k, w) ∈ options'.entries)) :
    GreatestSets options' name value := by
  obtain ⟨key, v, hmem, hsets, hgreatest⟩ := greatest
  exact ⟨key, v, (same hsets).1 hmem, hsets,
    fun key' v' value' hmem' hsets' => hgreatest key' v' value' ((same hsets').2 hmem') hsets'⟩

/-- An entry that is added has no effect on the names that it does not set. -/
theorem greatestSets_place_iff (sets : Sets key v name value)
    (other : name' ≠ name) :
    GreatestSets (Ordered.place key v options) name' value' ↔
      GreatestSets options name' value' := by
  have hmem {k : String} {w : Json} {x : String} (hsets : Sets k w name' x) :
      (k, w) ∈ (Ordered.place key v options).entries ↔ (k, w) ∈ options.entries := by
    -- an entry with the key that is placed sets the other name, whatever its value
    have hkey : k ≠ key := by
      rintro rfl
      exact other (hsets.name_eq sets)
    rw [Ordered.mem_place_iff, if_neg hkey]
  exact ⟨fun greatest => greatest.of_mem_iff hmem,
    fun greatest => greatest.of_mem_iff fun hsets => (hmem hsets).symm⟩

end Profile

namespace Cli

variable {σ : Type} {registry : Registry σ} {tools : ToolLocator} {t : FileTree}
  {arguments : Arguments} {profile : Profile} {job : Job} {options : OptionTable}
  {name value key : String} {v : Json}

/-! ## Layers -/

/-- The switch that keeps partial files is given, and this is the option it sets. -/
def IsSwitched (arguments : Arguments) (name : String) : Prop :=
  arguments.keepPartial = true ∧ name = "keep_partial"

/-- A pair of the command line sets this option. -/
def IsPaired (arguments : Arguments) (name : String) : Prop :=
  ∃ pair ∈ arguments.options, ∃ value, OptionTable.Sets pair name value

/-- The layer that decides an option: the switch, else the last pair of the command line that sets
it, else the entry of the profile that sets it and has the greatest key. -/
inductive Decides (arguments : Arguments) (profile : Profile) (name : String) : String → Prop where
  | switch (on : IsSwitched arguments name) : Decides arguments profile name "true"
  | pair {value : String} (off : ¬ IsSwitched arguments name)
      (last : OptionTable.LastGives OptionTable.Sets arguments.options name value) :
      Decides arguments profile name value
  | entry {value : String} (off : ¬ IsSwitched arguments name)
      (unpaired : ¬ IsPaired arguments name)
      (greatest : Profile.GreatestSets profile.options name value) :
      Decides arguments profile name value

theorem get?_optionTable_eq_some_iff {table : OptionTable}
    (read : profile.optionTable = .ok table) :
    table.get? name = some value ↔ Profile.GreatestSets profile.options name value := by
  rw [optionTable_eq_setAll] at read
  have hlast : table.get? name = _ := (OptionTable.get?_setAll read name).trans Option.or_none
  rw [hlast, OptionTable.findSome?_eq_some_iff_lastGives Profile.pair_eq_ok_iff,
    Profile.lastGives_iff_greatestSets]

/-- The layers decide the options of a job. -/
theorem get?_mergedOptions_eq_some_iff
    (merged : mergedOptions arguments profile = .ok options) :
    options.get? name = some value ↔ Decides arguments profile name value := by
  obtain ⟨fromProfile, fromWords, hprofile, hwords, rfl⟩ := mergedOptions_eq_ok_iff.1 merged
  by_cases hon : IsSwitched arguments name
  · -- the switch is set last, on top of what was merged
    rw [if_pos hon.1, OptionTable.get?_set, if_pos hon.2, Option.some.injEq]
    constructor
    · rintro rfl
      exact .switch hon
    · intro hdecides
      cases hdecides with
      | switch => rfl
      | pair off => exact absurd hon off
      | entry off => exact absurd hon off
  · have hget : OptionTable.get? (if arguments.keepPartial then
        (fromProfile.merge fromWords).set "keep_partial" "true" else fromProfile.merge fromWords)
          name =
        (fromWords.get? name).or (fromProfile.get? name) := by
      rw [← OptionTable.get?_merge]
      split
      · next hkeep => rw [OptionTable.get?_set, if_neg fun hname => hon ⟨hkeep, hname⟩]
      · rfl
    rw [hget, Option.or_eq_some_iff, OptionTable.get?_ofPairs_eq_some_iff hwords,
      OptionTable.get?_ofPairs_eq_none_iff hwords, get?_optionTable_eq_some_iff hprofile]
    constructor
    · rintro (hlast | ⟨hunpaired, hgreatest⟩)
      · exact .pair hon hlast
      · exact .entry hon hunpaired hgreatest
    · intro hdecides
      cases hdecides with
      | switch on => exact absurd on hon
      | pair _ hlast => exact .inl hlast
      | entry _ hunpaired hgreatest => exact .inr ⟨hunpaired, hgreatest⟩

/-! ## Entries without effect -/

/-- The options that the command line leaves open are the only ones that depend on the profile. -/
theorem Decides.of_entries {profile' : Profile} (decides : Decides arguments profile name value)
    (entries : ¬ IsSwitched arguments name → ¬ IsPaired arguments name →
      Profile.GreatestSets profile.options name value →
      Profile.GreatestSets profile'.options name value) :
    Decides arguments profile' name value := by
  cases decides with
  | switch on => exact .switch on
  | pair off last => exact .pair off last
  | entry off unpaired greatest => exact .entry off unpaired (entries off unpaired greatest)

/-- An entry for a name that the command line sets decides nothing. -/
theorem decides_place_iff (sets : Profile.Sets key v name value)
    (given : IsSwitched arguments name ∨ IsPaired arguments name) {n w : String} :
    Decides arguments { profile with options := Ordered.place key v profile.options } n w ↔
      Decides arguments profile n w := by
  have hentry (hoff : ¬ IsSwitched arguments n) (hunpaired : ¬ IsPaired arguments n) :
      Profile.GreatestSets (Ordered.place key v profile.options) n w ↔
        Profile.GreatestSets profile.options n w := by
    apply Profile.greatestSets_place_iff sets
    rintro rfl
    exact given.elim hoff hunpaired
  exact ⟨fun decides => decides.of_entries fun off unpaired => (hentry off unpaired).1,
    fun decides => decides.of_entries fun off unpaired => (hentry off unpaired).2⟩

theorem exists_optionTable_place {table : OptionTable}
    (read : profile.optionTable = .ok table) (sets : Profile.Sets key v name value) :
    ∃ table', Profile.optionTable
      { profile with options := Ordered.place key v profile.options } = .ok table' := by
  rw [optionTable_eq_setAll] at read
  simp only [optionTable_eq_setAll, OptionTable.exists_setAll_iff]
  rintro ⟨k, w⟩ hmem
  rw [Ordered.mem_place_iff] at hmem
  split at hmem
  · next hkey =>
      subst hkey hmem
      exact ⟨(name, value), Profile.pair_eq_ok_iff.2 sets⟩
  · exact OptionTable.exists_setAll_iff.1 ⟨table, read⟩ (k, w) hmem

/-- An entry for a name that the command line sets leaves the options of the job unchanged. -/
theorem mergedOptions_place (merged : mergedOptions arguments profile = .ok options)
    (sets : Profile.Sets key v name value)
    (given : IsSwitched arguments name ∨ IsPaired arguments name) :
    mergedOptions arguments { profile with options := Ordered.place key v profile.options } =
      .ok options := by
  obtain ⟨fromProfile, fromWords, hprofile, hwords, -⟩ := mergedOptions_eq_ok_iff.1 merged
  obtain ⟨fromProfile', hprofile'⟩ := exists_optionTable_place hprofile sets
  have hmerged' := mergedOptions_eq_ok_iff.2 ⟨fromProfile', fromWords, hprofile', hwords, rfl⟩
  rw [hmerged', Except.ok.injEq]
  apply OptionTable.ext_get?
  intro n
  ext w
  rw [get?_mergedOptions_eq_some_iff hmerged', get?_mergedOptions_eq_some_iff merged,
    decides_place_iff sets given]

/-! ## Plans -/

/-- **The command line comes before the profile.** The layers decide every option of a job that was
planned. Plugins that are named and the path for raw audio are those of the command line, else those
of the profile. An entry that is added to the profile for an option that the command line sets,
however it is spelled, leaves the job as it was. -/
theorem plan_prefers_command_line (loads : Loads t arguments profile)
    (planned : (plan registry tools t arguments).result = .ok job) :
    (∀ name value, job.options.get? name = some value ↔ Decides arguments profile name value) ∧
    (∀ name, arguments.exporter?.or profile.exporter? = some name →
      registry.resolve .encoder name = .ok job.selected) ∧
    (∀ name, arguments.importer?.or profile.importer? = some name →
      ∃ d, registry.resolve .decoder name = .ok d ∧ job.importer? = some d) ∧
    job.rawAudio? = arguments.rawAudio?.or profile.rawAudio? ∧
    ∀ key v name value t', Profile.Sets key v name value →
      IsSwitched arguments name ∨ IsPaired arguments name →
      Loads t' arguments { profile with options := Ordered.place key v profile.options } →
      tools.isAvailable t' = tools.isAvailable t →
      (plan registry tools t' arguments).result = .ok job := by
  obtain ⟨hinput, hplans, haudio⟩ := (plan_eq_ok_iff loads).1 planned
  have hexporter := hplans.exporter_eq
  have himporter := hplans.importer_eq
  refine ⟨fun name value => get?_mergedOptions_eq_some_iff hplans.options_eq, ?_, ?_,
    haudio, ?_⟩
  · intro name hnamed
    rw [hnamed] at hexporter
    exact hexporter
  · intro name hnamed
    rw [hnamed] at himporter
    have hresolved : (registry.resolve .decoder name).map some = .ok job.importer? := himporter
    cases hd : registry.resolve .decoder name with
    | error e =>
        rw [hd] at hresolved
        cases hresolved
    | ok d =>
        rw [hd] at hresolved
        exact ⟨d, rfl, (Except.ok.inj hresolved).symm⟩
  · -- the plan depends on the other tree through the profile and the tools only
    intro key v name value t' sets given loads' same
    refine (plan_eq_ok_iff loads').2 ⟨hinput, ⟨hplans.output_eq, ?_, ?_, ?_⟩, haudio⟩
    · exact mergedOptions_place hplans.options_eq sets given
    · rw [same]
      exact hexporter
    · rw [same]
      exact himporter

/-! ## A profile with one entry more -/

/-- A tree with a profile and nothing else. -/
def profileTree (text : String) : FileTree :=
  FileTree.put {} ["p"] (.file (Utf8.encode text) Node.newMode)

/-- One option. -/
def shortText : String :=
  "\x7b\"options\":\x7b\"raw\":\"1\"\x7d\x7d"

/-- The same option and another one. -/
def longText : String :=
  "\x7b\"options\":\x7b\"raw\":\"1\",\"FRAME_SIZE\":\"7\"\x7d\x7d"

/-- The other option in another spelling. -/
def spelledArguments : Arguments :=
  { sampleArguments with
    exporter? := some "plain", importer? := some "reader", profile? := some "p"
    options := ["Frame_Size = 9"] }

theorem isAvailable_profileTree (text tool : String) :
    ToolLocator.isAvailable {} (profileTree text) tool = false := by
  -- nothing in the tree may be executed
  have hexecutable (path : String) : (profileTree text).isExecutable path = false := by
    unfold FileTree.isExecutable
    split
    · next node hnode =>
        obtain ⟨place, -, hthere⟩ := FileTree.stat_eq_ok_iff.1 hnode
        rw [profileTree, FileTree.node?_put _ (by simp)] at hthere
        split at hthere
        · cases hthere
          rfl
        · unfold FileTree.node? at hthere
          split at hthere
          · cases hthere
            rfl
          · cases hthere
    · rfl
  unfold ToolLocator.isAvailable ToolLocator.locate?
  simp [hexecutable, ToolLocator.searchFor?]

/-- The added entry does not count, though its key is spelled in capitals. -/
theorem plan_prefers_command_line_spelled : ∃ job,
    (plan sampleRegistry {} (profileTree shortText) spelledArguments).result = .ok job ∧
      job.options.get? "frame_size" = some "9" ∧
      (plan sampleRegistry {} (profileTree longText) spelledArguments).result = .ok job := by
  have hloads : Loads (profileTree shortText) spelledArguments
    { options := { entries := [("raw", .string "1")] } } := rfl
  have hloads' : Loads (profileTree longText) spelledArguments
      { options := { entries := [("FRAME_SIZE", .string "7"), ("raw", .string "1")] } } := rfl
  have hplanned : (plan sampleRegistry {} (profileTree shortText) spelledArguments).result = .ok
      { input := "clip.divx", output := "clip.avi", selected := plain, importer? := some reader
        options := { entries := [("frame_size", "9"), ("raw", "1")] } } := by
    refine (plan_eq_ok_iff hloads).2 ⟨rfl, ⟨rfl, ?_, ?_, ?_⟩, rfl⟩
    · decide +kernel
    · rfl
    · rfl
  have hsets : Profile.Sets "FRAME_SIZE" (.string "7") "frame_size" "7" :=
    Profile.pair_eq_ok_iff.1 (by decide +kernel)
  have hpaired : IsPaired spelledArguments "frame_size" :=
    ⟨_, List.mem_singleton_self _, "9", OptionTable.parsePair_eq_ok_iff.1 (by decide +kernel)⟩
  obtain ⟨-, -, -, -, hadded⟩ := plan_prefers_command_line hloads hplanned
  refine ⟨_, hplanned, rfl, hadded "FRAME_SIZE" (.string "7") _ _ _ hsets (.inr hpaired) hloads' ?_⟩
  funext tool
  rw [isAvailable_profileTree, isAvailable_profileTree]

end Cli

end Transcode
