import Transcode.Descriptor
import Transcode.Proofs.Trimming
/-!
# Names and drafts

A plugin is known under its trimmed name in lower case, and a format under its trimmed tag in upper
case. Both normalisations are idempotent (`Descriptor.normalName_normalName`,
`FormatTag.ofText_ofText`). A descriptor comes from a draft: a name is given, steps add to the
draft, and the finished draft is checked. Whatever the steps, the descriptor carries the given name
in its normal form (`Descriptor.BuiltAs.name_eq`), and it corresponds to the steps
(`Descriptor.Gathers`): one step preserves the correspondence (`Descriptor.Gathers.take`), and so
does a list of steps (`Descriptor.Gathers.run`). `Descriptor.drafted_checks_out` characterises the
descriptor.
-/

set_option autoImplicit false

namespace Transcode

/-! ## Tags and names -/

/-- A tag in its normal form keeps it. -/
theorem FormatTag.ofText_ofText (text : String) : ofText (ofText text).text = ofText text :=
  congrArg FormatTag.mk (Text.isCasing_toUpper.normal_normal text)

theorem FormatTag.isNormal_ofText (text : String) : Text.IsNormal Char.isLower (ofText text).text :=
  Text.isCasing_toUpper.isNormal text

namespace Descriptor

/-- A name in its normal form keeps it. -/
theorem normalName_normalName (name : String) : normalName (normalName name) = normalName name :=
  Text.isCasing_toLower.normal_normal name

theorem isNormal_normalName (name : String) : Text.IsNormal Char.isUpper (normalName name) :=
  Text.isCasing_toLower.isNormal name

/-! ## Drafts -/

/-- One step of a draft. -/
inductive DraftStep where
  | version (text : String)
  | description (text : String)
  | format (text : String)
  | tool (name : String)
  | limitation (note : String)
  | option (name : String)
  | flags (bits : UInt32)
  | framing (framing : Framing)

/-- The draft after one more step. -/
def take (d : Descriptor) : DraftStep → Descriptor
  | .version text => { d with version := text }
  | .description text => { d with description := text }
  | .format text => d.addFormat text
  | .tool name => d.addTool name
  | .limitation note => d.addLimitation note
  | .option name => d.addOption name
  | .flags bits => d.addFlags bits
  | .framing framing => { d with framing := framing }

/-- The draft of a name, a kind and a medium after a list of steps. -/
def drafted (given : String) (kind : PluginKind) (media : MediaType) (steps : List DraftStep) :
    Descriptor :=
  steps.foldl take (draft given kind media)

/-- A descriptor that a draft of this name has led to. -/
def BuiltAs (given : String) (d : Descriptor) : Prop :=
  ∃ kind media steps, (drafted given kind media steps).check = .ok d

/-- A format is all that adding one can change. -/
theorem addFormat_eq (d : Descriptor) (text : String) : d.addFormat text =
    { d with
      formats :=
        if FormatTag.ofText text ∈ d.formats then d.formats else d.formats ++
          [FormatTag.ofText text] } := by
  rw [addFormat]
  split <;> rfl

theorem take_name (d : Descriptor) (step : DraftStep) : (d.take step).name = d.name := by
  cases step with
  | format text => rw [take, addFormat_eq]
  | _ => rfl

theorem foldl_take_name (d : Descriptor) (steps : List DraftStep) :
    (steps.foldl take d).name = d.name := by
  induction steps generalizing d with
  | nil => rfl
  | cons step rest ih => rw [List.foldl_cons, ih, take_name]

theorem name_drafted (given : String) (kind : PluginKind) (media : MediaType)
    (steps : List DraftStep) :
    (drafted given kind media steps).name = normalName given :=
  foldl_take_name _ steps

/-- Case distinction for a check: a draft without a name, with a blank format or without any is
refused, and every other one is left as it is. -/
theorem check_cases (d : Descriptor) :
    (d.name = "" ∨ (∃ tag ∈ d.formats, tag.text = "") ∨ d.formats = []) ∧
        (∃ fault, d.check = .error (.configuration fault)) ∨
      (d.name ≠ "" ∧ (∀ tag ∈ d.formats, tag.text ≠ "") ∧ d.formats ≠ []) ∧ d.check = .ok d := by
  have hblank : (d.formats.any fun f => f.text.toList.isEmpty) = true ↔
      ∃ tag ∈ d.formats, tag.text = "" := by
    simp only [List.any_eq_true, List.isEmpty_iff, String.toList_eq_nil_iff]
  unfold check
  split
  · next hname => exact .inl ⟨.inl (String.toList_eq_nil_iff.1 hname), _, rfl⟩
  · next hname =>
      split
      · next hany => exact .inl ⟨.inr (.inl (hblank.1 hany)), _, rfl⟩
      · next hany =>
          split
          · next hnone => exact .inl ⟨.inr (.inr hnone), _, rfl⟩
          · next hsome =>
              refine .inr
                ⟨⟨fun hempty => hname (String.toList_eq_nil_iff.2 hempty), ?_, hsome⟩, rfl⟩
              intro tag htag hempty
              exact hany (hblank.2 ⟨tag, htag, hempty⟩)

theorem eq_of_check {d d' : Descriptor} (h : d.check = .ok d') : d' = d := by
  rcases d.check_cases with ⟨-, fault, hcheck⟩ | ⟨-, hcheck⟩
  · cases h.symm.trans hcheck
  · exact Except.ok.inj (h.symm.trans hcheck)

/-- A descriptor carries the given name in its normal form. -/
theorem BuiltAs.name_eq {given : String} {d : Descriptor} (built : BuiltAs given d) :
    d.name = normalName given := by
  obtain ⟨kind, media, steps, hcheck⟩ := built
  rw [eq_of_check hcheck, name_drafted]

/-! ## The effect of steps on a draft -/

/-- The format that a step adds. -/
def DraftStep.format? : DraftStep → Option String
  | .format text => some text
  | _ => none

/-- The tool required by a step. -/
def DraftStep.tool? : DraftStep → Option String
  | .tool name => some name
  | _ => none

/-- The flag bits that a step sets. -/
def DraftStep.bits : DraftStep → UInt32
  | .tool _ => externalFlag
  | .flags bits => bits
  | _ => 0

/-- The formats that steps add, as they are written. -/
def added (steps : List DraftStep) : List String :=
  steps.filterMap DraftStep.format?

/-- The bit with this number is set. -/
def IsSet (bits : UInt32) (i : Nat) : Prop :=
  bits.toBitVec.getLsbD i = true

/-- Correspondence of a draft to a list of steps. -/
structure Gathers (d : Descriptor) (steps : List DraftStep) : Prop where
  formats_eq : d.formats = ((added steps).map FormatTag.ofText).eraseDups
  nodup : d.formats.Nodup
  tools_eq : d.tools = steps.filterMap DraftStep.tool?
  flags_iff : ∀ i, IsSet d.flags i ↔ ∃ step ∈ steps, IsSet step.bits i

section Gathering

variable {d : Descriptor} {steps done : List DraftStep}

/-- One more element is left out where it stands in the list already. -/
theorem eraseDups_concat {α : Type} [DecidableEq α] (l : List α) (a : α) :
    (l ++ [a]).eraseDups = if a ∈ l then l.eraseDups else l.eraseDups ++ [a] := by
  rw [List.eraseDups_append]
  split
  · next hmem => simp [List.removeAll, hmem]
  · next hmem => simp [List.removeAll, hmem, List.eraseDups_cons]

theorem head?_eraseDups {α : Type} [DecidableEq α] (l : List α) : l.eraseDups.head? = l.head? := by
  cases l with
  | nil => rfl
  | cons a rest => rw [List.eraseDups_cons, List.head?_cons, List.head?_cons]

theorem added_concat (steps : List DraftStep) (step : DraftStep) :
    added (steps ++ [step]) = added steps ++ step.format?.toList := by
  rw [added, List.filterMap_append]
  cases step <;> rfl

theorem isSet_or {a b : UInt32} {i : Nat} : IsSet (a ||| b) i ↔ IsSet a i ∨ IsSet b i := by
  rw [IsSet, UInt32.toBitVec_or, BitVec.getLsbD_or, Bool.or_eq_true]
  rfl

theorem hasFlags_iff {bits : UInt32} : d.hasFlags bits = true ↔ ∀ i, IsSet bits i →
    IsSet d.flags i := by
  rw [hasFlags, beq_iff_eq, ← UInt32.toBitVec_inj, UInt32.toBitVec_and]
  constructor
  · intro hsame i hset
    rw [IsSet, ← hsame, BitVec.getLsbD_and, Bool.and_eq_true] at hset
    exact hset.1
  · intro hall
    apply BitVec.eq_of_getLsbD_eq
    intro i _
    cases hset : bits.toBitVec.getLsbD i with
    | true => rw [BitVec.getLsbD_and, hall i hset, hset, Bool.and_self]
    | false => rw [BitVec.getLsbD_and, hset, Bool.and_false]

theorem take_tools (d : Descriptor) (step : DraftStep) :
    (d.take step).tools = d.tools ++ step.tool?.toList := by
  cases step with
  | tool name => rfl
  | format text =>
      rw [take, addFormat_eq]
      exact (List.append_nil _).symm
  | _ => exact (List.append_nil _).symm

theorem take_flags (d : Descriptor) (step : DraftStep) :
    (d.take step).flags = d.flags ||| step.bits := by
  cases step with
  | tool name | flags bits => rfl
  | format text =>
      rw [take, addFormat_eq]
      exact UInt32.or_zero.symm
  | _ => exact UInt32.or_zero.symm

/-- A step preserves the correspondence. -/
theorem Gathers.take (gathers : d.Gathers steps) (step : DraftStep) :
    (d.take step).Gathers (steps ++ [step]) where
  formats_eq := by
    have hmem (tag : FormatTag) : tag ∈ d.formats ↔ tag ∈ (added steps).map FormatTag.ofText := by
      rw [gathers.formats_eq, List.mem_eraseDups]
    rw [added_concat, List.map_append]
    cases step with
    | format text =>
        -- a tag that the draft has is one that an earlier step has added
        simp only [Descriptor.take, addFormat_eq, hmem]
        rw [gathers.formats_eq]
        exact (eraseDups_concat _ _).symm
    | _ => exact gathers.formats_eq.trans (congrArg _ (List.append_nil _).symm)
  nodup := by
    cases step with
    | format text =>
        rw [Descriptor.take, addFormat_eq]
        dsimp only
        split
        · exact gathers.nodup
        · next hnew =>
            apply List.nodup_append.2
            refine ⟨gathers.nodup, List.pairwise_singleton _ _, ?_⟩
            intro tag htag tag' htag' hsame
            obtain rfl := List.mem_singleton.1 htag'
            exact hnew (hsame ▸ htag)
    | _ => exact gathers.nodup
  tools_eq := by
    rw [take_tools, gathers.tools_eq, List.filterMap_append]
    cases step <;> rfl
  flags_iff := by
    intro i
    rw [take_flags, isSet_or, gathers.flags_iff]
    simp [or_and_right, exists_or]

/-- A list of steps preserves the correspondence. -/
theorem Gathers.run (gathers : d.Gathers done) (steps : List DraftStep) :
    (steps.foldl Descriptor.take d).Gathers (done ++ steps) := by
  induction steps generalizing d done with
  | nil => rwa [List.append_nil]
  | cons step rest ih =>
      have hrest := ih (gathers.take step)
      rwa [List.append_assoc] at hrest

theorem gathers_draft (given : String) (kind : PluginKind) (media : MediaType) :
    (draft given kind media).Gathers [] where
  formats_eq := rfl
  nodup := .nil
  tools_eq := rfl
  flags_iff := by
    intro i
    simp [draft, IsSet]

theorem gathers_drafted (given : String) (kind : PluginKind) (media : MediaType)
    (steps : List DraftStep) : (drafted given kind media steps).Gathers steps :=
  (gathers_draft given kind media).run steps

end Gathering

/-! ## The fields of a descriptor -/

/-- A descriptor says what the given name and the steps of its draft have said. -/
structure Describes (given : String) (steps : List DraftStep) (d : Descriptor) : Prop where
  /-- The name is the given one, trimmed and in lower case. -/
  name_eq : d.name = Text.lower (Text.trim given)
  name_normal : Text.IsNormal Char.isUpper d.name ∧ normalName d.name = d.name
  name_ne_empty : d.name ≠ ""
  /-- The formats are those that were added, in their normal form and without the later duplicates.
  -/
  formats_eq : d.formats = ((added steps).map FormatTag.ofText).eraseDups
  formats_normal : ∀ tag ∈ d.formats,
    Text.IsNormal Char.isLower tag.text ∧ FormatTag.ofText tag.text = tag ∧ tag.text ≠ ""
  formats_ne_nil : d.formats ≠ []
  formats_nodup : d.formats.Nodup
  /-- The format added first is preferred. -/
  preferred_eq : d.preferred? = (added steps).head?.map FormatTag.ofText
  supports_iff : ∀ text, d.supports (FormatTag.ofText text) = true ↔
    ∃ text' ∈ added steps, FormatTag.ofText text' = FormatTag.ofText text
  /-- A plugin that needs a tool is an external one. -/
  tools_eq : d.tools = steps.filterMap DraftStep.tool?
  external : d.tools ≠ [] → d.isExternal = true
  /-- No flag that was set is lost, and none comes from elsewhere. -/
  flags_kept : ∀ bits, .flags bits ∈ steps → d.hasFlags bits = true
  flags_iff : ∀ i, IsSet d.flags i ↔ ∃ step ∈ steps, IsSet step.bits i

theorem describes_of_check {given : String} {kind : PluginKind} {media : MediaType}
    {steps : List DraftStep} {d : Descriptor}
    (checked : (drafted given kind media steps).check = .ok d) :
    Describes given steps d := by
  obtain rfl := eq_of_check checked
  have hname := name_drafted given kind media steps
  have hgathers := gathers_drafted given kind media steps
  generalize drafted given kind media steps = d at *
  rcases d.check_cases with ⟨-, fault, hrefused⟩ | ⟨⟨hnamed, hwritten, hsome⟩, -⟩
  · cases checked.symm.trans hrefused
  -- what a step sets is set in the descriptor
  have hkept {step : DraftStep} (mem : step ∈ steps) : d.hasFlags step.bits = true := by
    apply hasFlags_iff.2
    intro i hset
    exact (hgathers.flags_iff i).2 ⟨step, mem, hset⟩
  have hmem (tag : FormatTag) : tag ∈ d.formats ↔
      ∃ text ∈ added steps, FormatTag.ofText text = tag := by
    rw [hgathers.formats_eq, List.mem_eraseDups, List.mem_map]
  constructor
  case name_eq => exact hname
  case name_normal =>
    rw [hname]
    exact ⟨isNormal_normalName given, normalName_normalName given⟩
  case name_ne_empty => exact hnamed
  case formats_eq => exact hgathers.formats_eq
  case formats_normal =>
    intro tag htag
    obtain ⟨text, -, rfl⟩ := (hmem tag).1 htag
    exact ⟨FormatTag.isNormal_ofText text, FormatTag.ofText_ofText text, hwritten _ htag⟩
  case formats_ne_nil => exact hsome
  case formats_nodup => exact hgathers.nodup
  case preferred_eq => rw [preferred?, hgathers.formats_eq, head?_eraseDups, List.head?_map]
  case supports_iff =>
    intro text
    rw [supports, List.contains_iff_mem, hmem]
  case tools_eq => exact hgathers.tools_eq
  case external =>
    intro htools
    rw [hgathers.tools_eq] at htools
    obtain ⟨name, hname⟩ := List.exists_mem_of_ne_nil _ htools
    obtain ⟨step, hstep, htool⟩ := List.mem_filterMap.1 hname
    cases step with
    | tool name => exact hkept hstep
    | _ => cases htool
  case flags_kept =>
    intro bits hbits
    exact hkept hbits
  case flags_iff => exact hgathers.flags_iff

/-- **A draft checks out if and only if it has a name and formats, none of them blank, and its
descriptor is then the one that the steps describe.** The steps may come in any order and any
number. -/
theorem drafted_checks_out (given : String) (kind : PluginKind) (media : MediaType)
    (steps : List DraftStep) :
    ((∃ d, (drafted given kind media steps).check = .ok d) ↔
      Text.trim given ≠ "" ∧ added steps ≠ [] ∧ ∀ text ∈ added steps, Text.trim text ≠ "") ∧
    (∀ d, (drafted given kind media steps).check = .ok d → Describes given steps d) ∧
    ∀ e, (drafted given kind media steps).check = .error e → ∃ fault, e = .configuration fault := by
  have hname : (drafted given kind media steps).name = "" ↔ Text.trim given = "" := by
    rw [name_drafted]
    exact Text.normal_eq_empty_iff
  have hformats := (gathers_drafted given kind media steps).formats_eq
  have hnone : (drafted given kind media steps).formats = [] ↔ added steps = [] := by
    rw [hformats, ← List.head?_eq_none_iff, head?_eraseDups, List.head?_eq_none_iff,
      List.map_eq_nil_iff]
  have hblank : (∀ tag ∈ (drafted given kind media steps).formats, tag.text ≠ "") ↔
      ∀ text ∈ added steps, Text.trim text ≠ "" := by
    simp only [hformats, List.mem_eraseDups, List.forall_mem_map]
    exact forall₂_congr fun text _ => not_congr Text.normal_eq_empty_iff
  refine ⟨?_, fun d hchecked => describes_of_check hchecked, ?_⟩
  · rw [Ne, ← hname, Ne, ← hnone, ← hblank]
    rcases (drafted given kind media steps).check_cases with ⟨hwrong, fault, hcheck⟩ |
      ⟨⟨hnamed, hwritten, hsome⟩, hcheck⟩
    · refine iff_of_false ?_ ?_
      · rintro ⟨d, hd⟩
        cases hd.symm.trans hcheck
      · rintro ⟨hnamed, hsome, hwritten⟩
        rcases hwrong with hempty | ⟨tag, htag, hempty⟩ | hempty
        · exact hnamed hempty
        · exact hwritten tag htag hempty
        · exact hsome hempty
    · exact iff_of_true ⟨_, hcheck⟩ ⟨hnamed, hsome, hwritten⟩
  · intro e he
    rcases (drafted given kind media steps).check_cases with ⟨-, fault, hcheck⟩ | ⟨-, hcheck⟩
    · cases he.symm.trans hcheck
      exact ⟨fault, rfl⟩
    · cases he.symm.trans hcheck

/-- A tool comes before a flag, and a format is added in two spellings. -/
def sampleSteps : List DraftStep :=
  [.tool "helper", .format " avi", .flags rawBitstreamFlag, .format "DIVX", .format "AVI\n"]

theorem drafted_checks_out_sample :
    (∃ d, (drafted "\tSample " .encoder .video sampleSteps).check = .ok d ∧ d.name = "sample" ∧
      d.formats = [⟨"AVI"⟩, ⟨"DIVX"⟩] ∧ d.preferred? = some ⟨"AVI"⟩ ∧ d.isExternal = true ∧
      d.isRawBitstream = true) ∧
    ¬ ∃ d, (drafted "Sample" .encoder .video (.format " \n" :: sampleSteps)).check = .ok d := by
  obtain ⟨hchecks, hdescribes, -⟩ := drafted_checks_out "\tSample " .encoder .video sampleSteps
  obtain ⟨hblank, -⟩ := drafted_checks_out "Sample" .encoder .video (.format " \n" :: sampleSteps)
  obtain ⟨d, hd⟩ := hchecks.2 (by decide +kernel)
  have hsample := hdescribes d hd
  refine ⟨⟨d, hd, hsample.name_eq.trans (by decide +kernel),
    hsample.formats_eq.trans (by decide +kernel),
    hsample.preferred_eq.trans (by decide +kernel), ?_, ?_⟩, ?_⟩
  · apply hsample.external
    rw [hsample.tools_eq]
    decide
  · exact hsample.flags_kept rawBitstreamFlag (by simp [sampleSteps])
  · rw [hblank]
    decide +kernel

end Descriptor

end Transcode
