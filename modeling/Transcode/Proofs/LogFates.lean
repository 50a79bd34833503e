import Transcode.Log.Cleanup
import Transcode.Proofs.LogNames
/-!
# The fates of logs

An abstract clean-up: a directory is a partial function from names to entries of any type, without a
file system. Each name has a fate: `Cleanup.Expired` logs go, `Cleanup.Historic` ones are packed
unless their packed form is there, all else stays. `Cleanup.handled` is the effect of one turn on a
directory and `Cleanup.cleaned` that of all turns. A turn decides the fate of its entry and maybe of
its packed form, and of nothing else (`Cleanup.turnOf`); so after any turns, in any order, the
entries they decide are as after all turns and the others as at the start
(`Cleanup.handled_midway`).
-/

set_option autoImplicit false

namespace Transcode

namespace Cleanup

variable {α : Type} {form : α → α} {settings : LogSettings} {today : Date}
  {name other base : String} {held view : String → Option α} {front : List String}

/-! ## Fates by name -/

/-- The number of the first day to be kept. -/
def firstKept (settings : LogSettings) (today : Date) : Int :=
  today.dayNumber - settings.retentionDays

/-- The first day to be kept is found, if it is in the calendar as today is. -/
theorem cutoff?_eq (calendar : Date.inCalendar today.dayNumber = true)
    (representable : Date.inCalendar (firstKept settings today) = true) :
    cutoff? settings today = some (firstKept settings today) := by
  have hfirst : Date.first.dayNumber = -95746129 := by decide
  have hlast : Date.last.dayNumber = 95745399 := by decide
  unfold firstKept at representable ⊢
  -- the two days are no further apart than the calendar is long
  have hretention : settings.retentionDays.natAbs ≤ retentionLimit := by
    simp only [Date.inCalendar, hfirst, hlast, Bool.and_eq_true, decide_eq_true_eq] at calendar
    simp only [Date.inCalendar, hfirst, hlast, Bool.and_eq_true, decide_eq_true_eq] at representable
    unfold retentionLimit
    omega
  rw [cutoff?, if_pos ⟨hretention, representable⟩]

/-- A log of a day before the first one to be kept, packed or not. -/
def Expired (settings : LogSettings) (today : Date) (name : String) : Prop :=
  ∃ log ∈ LogFile.parse? settings.stem name, log.1.dayNumber < firstKept settings today

instance : Decidable (Expired settings today name) :=
  inferInstanceAs (Decidable (∃ _ ∈ _, _))

/-- A log of an earlier day that is kept and not packed, where logs are to be packed. -/
def Historic (settings : LogSettings) (today : Date) (name : String) : Prop :=
  settings.compressHistory = true ∧ ∃ log ∈ LogFile.parse? settings.stem name, log.2 = false ∧
    firstKept settings today ≤ log.1.dayNumber ∧ log.1.dayNumber < today.dayNumber

instance : Decidable (Historic settings today name) :=
  inferInstanceAs (Decidable (_ ∧ ∃ _ ∈ _, _))

/-- A log that is to be packed and whose packed form a directory does not hold. -/
def Packs (settings : LogSettings) (today : Date) (held : String → Option α) (name : String) :
    Prop :=
  Historic settings today name ∧ (held (name ++ ".gz")).isNone = true

instance : Decidable (Packs settings today held name) :=
  inferInstanceAs (Decidable (_ ∧ _))

section Parsed

variable {date : Date} {packed : Bool}

theorem expired_iff (parsed : LogFile.parse? settings.stem name = some (date, packed)) :
    Expired settings today name ↔ date.dayNumber < firstKept settings today := by
  simp [Expired, parsed]

theorem historic_iff (parsed : LogFile.parse? settings.stem name = some (date, packed)) :
    Historic settings today name ↔ settings.compressHistory = true ∧ packed = false ∧
      firstKept settings today ≤ date.dayNumber ∧ date.dayNumber < today.dayNumber := by
  simp [Historic, parsed]

/-- A name without a date does not expire. -/
theorem not_expired_of_none (unknown : LogFile.parse? settings.stem name = none) :
    ¬ Expired settings today name := by
  simp [Expired, unknown]

theorem not_historic_of_none (unknown : LogFile.parse? settings.stem name = none) :
    ¬ Historic settings today name := by
  simp [Historic, unknown]

end Parsed

/-- The action for an entry, by the day of its name. -/
theorem action_eq (settings : LogSettings) (today : Date) (name : String) :
    action settings today (firstKept settings today) name =
      if Expired settings today name then .remove
      else if Historic settings today name then .compress else .leave := by
  unfold action
  cases hparse : LogFile.parse? settings.stem name with
  | none => rw [if_neg (not_expired_of_none hparse), if_neg (not_historic_of_none hparse)]
  | some log =>
      obtain ⟨date, packed⟩ := log
      simp only [expired_iff hparse, historic_iff hparse]
      by_cases hexpired : date.dayNumber < firstKept settings today
      · simp only [hexpired, if_true]
      · cases packed <;> simp [hexpired, Int.not_lt.1 hexpired]

theorem Historic.not_expired (historic : Historic settings today name) :
    ¬ Expired settings today name := by
  obtain ⟨-, ⟨date, packed⟩, hlog, -, hkept, -⟩ := historic
  rw [expired_iff hlog]
  exact Int.not_lt.2 hkept

/-- The packed form of a log that is kept is kept. -/
theorem Historic.not_expired_packed (historic : Historic settings today name) :
    ¬ Expired settings today (name ++ ".gz") := by
  obtain ⟨-, ⟨date, packed⟩, hlog, rfl, hkept, -⟩ := historic
  rw [expired_iff (LogFile.parse?_packed_iff.2 hlog)]
  exact Int.not_lt.2 hkept

/-- A packed form is not packed again. -/
theorem not_historic_packed : ¬ Historic settings today (name ++ ".gz") := by
  rintro ⟨-, ⟨date, packed⟩, hlog, rfl, -⟩
  exact LogFile.parse?_packed_ne hlog

/-! ## Turns in a directory of names -/

/-- The entries of a directory after the turn of one of them. -/
def handled (form : α → α) (settings : LogSettings) (today : Date) (held : String → Option α)
    (name : String) : String → Option α :=
  if Expired settings today name then fun other => if other = name then none else held other
  else if Packs settings today held name then fun other =>
    if other = name then none
    else if other = name ++ ".gz" then (held name).map form else held other
  else held

/-- The name of the log whose packed form a name can be. -/
def base? (name : String) : Option String :=
  (stripEnd? ".gz".toList name.toList).map String.ofList

theorem base?_eq_some_iff : base? name = some base ↔ name = base ++ ".gz" := by
  rw [base?, Option.map_eq_some_iff]
  constructor
  · rintro ⟨chars, hstrip, rfl⟩
    apply String.toList_injective
    rw [String.toList_append, String.toList_ofList]
    exact stripEnd?_eq_some_iff.1 hstrip
  · rintro rfl
    exact ⟨base.toList, stripEnd?_eq_some_iff.2 String.toList_append, String.ofList_toList⟩

theorem base?_packed (name : String) : base? (name ++ ".gz") = some name :=
  base?_eq_some_iff.2 rfl

theorem packed_ne (name : String) : name ++ ".gz" ≠ name := by
  intro h
  have hlength := congrArg (fun s => s.toList.length) h
  simp at hlength

/-- The entry whose turn decides what becomes of a name: a packed log is made in the turn of the
log, and all else happens to an entry in its own turn. -/
def turnOf (settings : LogSettings) (today : Date) (name : String) : String :=
  if Expired settings today name then name
  else
    match base? name with
    | some base => if Historic settings today base then base else name
    | none => name

/-- The entries of a directory after all turns. -/
def cleaned (form : α → α) (settings : LogSettings) (today : Date) (held : String → Option α)
    (name : String) : Option α :=
  if Expired settings today name ∨ Packs settings today held name then none
  else
    match base? name with
    | some base =>
        if Historic settings today base then (held name).or ((held base).map form)
        else held name
    | none => held name

/-- A name is decided upon in its own turn, or is the packed form of a log and decided upon in the
turn of that. -/
theorem turnOf_cases (settings : LogSettings) (today : Date) (name : String) :
    (turnOf settings today name = name ∧
      ∀ base, Historic settings today base → name = base ++ ".gz" → Expired settings today name) ∨
    ∃ base, name = base ++ ".gz" ∧ Historic settings today base ∧
      turnOf settings today name = base := by
  unfold turnOf
  by_cases hexpired : Expired settings today name
  · exact .inl ⟨if_pos hexpired, fun _ _ _ => hexpired⟩
  · rw [if_neg hexpired]
    cases hbase : base? name with
    | none =>
        refine .inl ⟨rfl, ?_⟩
        rintro base - rfl
        rw [base?_packed] at hbase
        cases hbase
    | some base =>
        obtain rfl := base?_eq_some_iff.1 hbase
        by_cases historic : Historic settings today base
        · exact .inr ⟨base, rfl, historic, if_pos historic⟩
        · refine .inl ⟨if_neg historic, ?_⟩
          intro base' historic' hsame
          rw [String.append_left_inj] at hsame
          exact absurd (hsame ▸ historic') historic

theorem turnOf_packed (historic : Historic settings today name) :
    turnOf settings today (name ++ ".gz") = name := by
  rw [turnOf, if_neg historic.not_expired_packed, base?_packed]
  exact if_pos historic

theorem turnOf_historic (historic : Historic settings today name) :
    turnOf settings today name = name := by
  rcases turnOf_cases settings today name with ⟨hturn, -⟩ | ⟨base, rfl, -, -⟩
  · exact hturn
  · exact absurd historic not_historic_packed

/-- Only an entry and its packed form are decided upon in its turn. -/
theorem eq_of_turnOf (h : turnOf settings today other = name) :
    other = name ∨ other = name ++ ".gz" ∧ Historic settings today name := by
  rcases turnOf_cases settings today other with ⟨hturn, -⟩ | ⟨base, rfl, historic, hturn⟩
  · exact .inl (hturn.symm.trans h)
  · obtain rfl := hturn.symm.trans h
    exact .inr ⟨rfl, historic⟩

theorem cleaned_of_expired (expired : Expired settings today name) :
    cleaned form settings today held name = none :=
  if_pos (.inl expired)

theorem cleaned_of_packs (packs : Packs settings today held name) :
    cleaned form settings today held name = none :=
  if_pos (.inr packs)

/-- The packed form of a log is there in the end if it or the log was. -/
theorem cleaned_packed (historic : Historic settings today name) :
    cleaned form settings today held (name ++ ".gz") =
      (held (name ++ ".gz")).or ((held name).map form) := by
  have hkept : ¬ (Expired settings today (name ++ ".gz") ∨
      Packs settings today held (name ++ ".gz")) := by
    rintro (hexpired | hpacks)
    · exact historic.not_expired_packed hexpired
    · exact not_historic_packed hpacks.1
  rw [cleaned, if_neg hkept, base?_packed]
  exact if_pos historic

/-- An entry that is left alone in its own turn stays as it is. -/
theorem cleaned_of_kept (turn : turnOf settings today name = name)
    (kept : ¬ Expired settings today name) (unpacked : ¬ Packs settings today held name) :
    cleaned form settings today held name = held name := by
  rw [cleaned, if_neg (not_or.2 ⟨kept, unpacked⟩)]
  cases hbase : base? name with
  | none => rfl
  | some base =>
      apply if_neg
      intro historic
      obtain rfl := base?_eq_some_iff.1 hbase
      rw [turnOf_packed historic] at turn
      exact packed_ne base turn.symm

/-- A new entry after all turns is neither removed nor packed. -/
theorem of_cleaned_ne_none (absent : held name = none)
    (there : cleaned form settings today held name ≠ none) :
    ¬ Expired settings today name ∧ ¬ Historic settings today name := by
  have hkept : ¬ Expired settings today name := fun h => there (cleaned_of_expired h)
  refine ⟨hkept, ?_⟩
  rcases turnOf_cases settings today name with ⟨hturn, -⟩ | ⟨base, rfl, -, -⟩
  · have hunpacked : ¬ Packs settings today held name := fun h => there (cleaned_of_packs h)
    rw [cleaned_of_kept hturn hkept hunpacked] at there
    exact absurd absent there
  · exact not_historic_packed

/-- The entries of a directory after the turns of some of them: those which these turns decide are
as after all turns, and the others as at the start. -/
def midway (form : α → α) (settings : LogSettings) (today : Date) (held : String → Option α)
    (front : List String) (name : String) : Option α :=
  if turnOf settings today name ∈ front then cleaned form settings today held name else held name

theorem midway_of_fresh (fresh : turnOf settings today name ∉ front) :
    midway form settings today held front name = held name :=
  if_neg fresh

/-- Whether a log is packed in its turn does not depend on the turns before. -/
theorem packs_midway_iff (fresh : name ∉ front) :
    Packs settings today (midway form settings today held front) name ↔
      Packs settings today held name := by
  apply and_congr_right
  intro historic
  rw [midway_of_fresh]
  rw [turnOf_packed historic]
  exact fresh

/-- A turn moves what it decides from the start to the end, whichever turns came before. -/
theorem handled_midway (fresh : name ∉ front) :
    handled form settings today (midway form settings today held front) name =
      midway form settings today held (front ++ [name]) := by
  funext other
  have hmoved : turnOf settings today other ≠ name →
      midway form settings today held (front ++ [name]) other =
        midway form settings today held front other := by
    intro hturn
    simp only [midway, List.mem_append, List.mem_singleton, hturn, or_false]
  have hdecided : turnOf settings today other = name →
      midway form settings today held (front ++ [name]) other =
        cleaned form settings today held other := by
    intro hturn
    apply if_pos
    rw [hturn]
    exact List.mem_append_right _ List.mem_cons_self
  by_cases hexpired : Expired settings today name
  · -- the entry is removed, and nothing else hangs on its turn
    rw [handled, if_pos hexpired]
    by_cases hother : other = name
    · subst hother
      rw [if_pos rfl, hdecided (if_pos hexpired), cleaned_of_expired hexpired]
    · rw [if_neg hother, hmoved]
      intro hturn
      rcases eq_of_turnOf hturn with hsame | ⟨-, historic⟩
      · exact hother hsame
      · exact historic.not_expired hexpired
  · rw [handled, if_neg hexpired]
    by_cases hpacks : Packs settings today held name
    · -- the entry is packed: its own name and that of its packed form change
      rw [if_pos ((packs_midway_iff fresh).2 hpacks)]
      have historic := hpacks.1
      by_cases hother : other = name
      · subst hother
        rw [if_pos rfl, hdecided (turnOf_historic historic), cleaned_of_packs hpacks]
      · rw [if_neg hother]
        by_cases hpacked : other = name ++ ".gz"
        · subst hpacked
          have hnew : held (name ++ ".gz") = none := Option.isNone_iff_eq_none.1 hpacks.2
          rw [if_pos rfl, hdecided (turnOf_packed historic), cleaned_packed historic, hnew,
            Option.none_or, midway_of_fresh ((turnOf_historic historic).symm ▸ fresh)]
        · rw [if_neg hpacked, hmoved]
          intro hturn
          rcases eq_of_turnOf hturn with hsame | ⟨hsame, -⟩
          · exact hother hsame
          · exact hpacked hsame
    · -- nothing is done, since what the turn decides is as in the end already
      rw [if_neg (mt (packs_midway_iff fresh).1 hpacks)]
      by_cases hturn : turnOf settings today other = name
      · rw [hdecided hturn, midway_of_fresh (hturn.symm ▸ fresh)]
        rcases eq_of_turnOf hturn with rfl | ⟨rfl, historic⟩
        · exact (cleaned_of_kept hturn hexpired hpacks).symm
        · have hthere : (held (name ++ ".gz")).isSome = true := by
            rw [Packs, not_and, Option.isNone_iff_eq_none] at hpacks
            exact Option.isSome_iff_ne_none.2 (hpacks historic)
          rw [cleaned_packed historic, Option.or_of_isSome hthere]
      · exact (hmoved hturn).symm

/-- An entry is there until its turn. -/
theorem midway_ne_none (there : held name ≠ none) (fresh : name ∉ front) :
    midway form settings today held front name ≠ none := by
  rcases turnOf_cases settings today name with ⟨hself, -⟩ | ⟨base, rfl, historic, -⟩
  · rw [midway_of_fresh (hself.symm ▸ fresh)]
    exact there
  · -- the turn of a log leaves a packed form that is there already
    unfold midway
    rw [cleaned_packed historic, Option.or_of_isSome (Option.isSome_iff_ne_none.2 there), ite_self]
    exact there

/-- At any time there is nothing but what was there and packed forms. -/
theorem eq_of_midway {node : α} (h : midway form settings today held front name = some node) :
    held name = some node ∨ ∃ node', node = form node' := by
  unfold midway cleaned at h
  split at h
  · split at h
    · cases h
    · split at h
      · split at h
        · rcases Option.or_eq_some_iff.1 h with hheld | ⟨-, hpacked⟩
          · exact .inl hheld
          · obtain ⟨node', -, rfl⟩ := Option.map_eq_some_iff.1 hpacked
            exact .inr ⟨node', rfl⟩
        · exact .inl h
      · exact .inl h
  · exact .inl h

/-- After the turns of all that was there, everything is as in the end. -/
theorem midway_eq_cleaned (complete : ∀ name, held name ≠ none → name ∈ front) :
    midway form settings today held front = cleaned form settings today held := by
  funext name
  by_cases hturn : turnOf settings today name ∈ front
  · exact if_pos hturn
  · -- the entry that decides upon this name had no turn, so it was never there
    have habsent : held (turnOf settings today name) = none := by
      apply Decidable.byContradiction
      intro hthere
      exact hturn (complete _ hthere)
    rw [midway_of_fresh hturn]
    rcases turnOf_cases settings today name with ⟨hself, -⟩ | ⟨base, rfl, historic, hbase⟩
    · rw [hself] at habsent
      by_cases hdone : Expired settings today name ∨ Packs settings today held name
      · rw [habsent, cleaned, if_pos hdone]
      · obtain ⟨hkept, hunpacked⟩ := not_or.1 hdone
        rw [cleaned_of_kept hself hkept hunpacked]
    · rw [hbase] at habsent
      rw [cleaned_packed historic, habsent, Option.map_none, Option.or_none]

/-- A name stays as it is, unless it is that of a log that is removed or packed, or of the packed
form of one that is packed. -/
theorem cleaned_eq (kept : held name ≠ none → ¬ Expired settings today name)
    (unpacked : held name ≠ none → ¬ Packs settings today held name)
    (unmade : ∀ base, name = base ++ ".gz" → held base ≠ none → ¬ Packs settings today held base) :
    cleaned form settings today held name = held name := by
  rcases turnOf_cases settings today name with ⟨hself, -⟩ | ⟨base, rfl, historic, -⟩
  · by_cases hdone : Expired settings today name ∨ Packs settings today held name
    · -- there is nothing to be removed or packed
      have habsent : held name = none := by
        apply Decidable.byContradiction
        intro hthere
        exact hdone.elim (kept hthere) (unpacked hthere)
      rw [cleaned, if_pos hdone, habsent]
    · obtain ⟨hkept, hunpacked⟩ := not_or.1 hdone
      exact cleaned_of_kept hself hkept hunpacked
  · rw [cleaned_packed historic]
    cases hpacked : held (base ++ ".gz") with
    | some node => rw [Option.some_or]
    | none =>
        have habsent : held base = none := by
          apply Decidable.byContradiction
          intro hthere
          exact unmade base rfl hthere ⟨historic, Option.isNone_iff_eq_none.2 hpacked⟩
        rw [habsent, Option.map_none, Option.or_none]

/-- Naturality: a map of entries that commutes with packing commutes with the clean-up. -/
theorem cleaned_map {β : Type} {form' : β → β} {see : String → α → β}
    (commutes : ∀ name a, Historic settings today name →
      see (name ++ ".gz") (form a) = form' (see name a)) (name : String) :
    (cleaned form settings today held name).map (see name) =
      cleaned form' settings today (fun name => (held name).map (see name)) name := by
  have hpacks : Packs settings today (fun name => (held name).map (see name)) name ↔
      Packs settings today held name := by
    simp only [Packs, Option.isNone_map]
  unfold cleaned
  simp only [hpacks]
  split
  · rfl
  · cases hbase : base? name with
    | none => rfl
    | some base =>
        obtain rfl := base?_eq_some_iff.1 hbase
        by_cases historic : Historic settings today base
        · simp only [historic, if_true, Option.map_or, Option.map_map]
          congr 2
          funext a
          exact commutes base a historic
        · simp only [historic, if_false]

end Cleanup

end Transcode
