import Transcode.Proofs.LogCleanup
/-!
# Clean-ups on several days

A log may be packed on one day and removed on a later one, or stand beside a packed form all the
time. All such histories converge: a clean-up on a day absorbs clean-ups on earlier days
(`Cleanup.cleaned_cleaned`), and each log is removed once. So it does not matter how often logs are
cleaned up, as long as every clean-up succeeds (`Cleanup.daily_as_last`). Packings may differ from
one clean-up to the next, so packed files are compared by their unpacked content
(`Cleanup.SameLogs`).
-/

set_option autoImplicit false

namespace Transcode

namespace Cleanup

open FileTree

variable {α : Type} {form : α → α} {settings : LogSettings} {day last : Date} {name base : String}
  {place : Location} {held : String → Option α}

/-! ## An earlier day -/

/-- Expiry is monotone in the day. -/
theorem Expired.mono (later : day.dayNumber ≤ last.dayNumber)
    (expired : Expired settings day name) :
    Expired settings last name := by
  obtain ⟨log, hlog, hday⟩ := expired
  refine ⟨log, hlog, ?_⟩
  unfold firstKept at hday ⊢
  omega

/-- A log to be packed is to be packed later on, until it expires. -/
theorem Historic.mono (later : day.dayNumber ≤ last.dayNumber)
    (historic : Historic settings day name) (kept : ¬ Expired settings last name) :
    Historic settings last name := by
  obtain ⟨hcompress, ⟨date, packed⟩, hlog, hpacked, -, hday⟩ := historic
  rw [expired_iff hlog] at kept
  exact ⟨hcompress, ⟨date, packed⟩, hlog, hpacked, Int.not_lt.1 kept, Int.lt_of_lt_of_le hday later⟩

/-- A log and its packed form expire on one day. -/
theorem Historic.expired_packed_iff (historic : Historic settings day name) :
    Expired settings last (name ++ ".gz") ↔ Expired settings last name := by
  obtain ⟨-, ⟨date, packed⟩, hlog, rfl, -, -⟩ := historic
  rw [expired_iff hlog, expired_iff (LogFile.parse?_packed_iff.2 hlog)]

/-- Invariance of an entry that neither expires nor is packed, and is not the packed form of one
that is. -/
theorem cleaned_of_untouched (kept : ¬ Expired settings day name)
    (unpacked : ¬ Historic settings day name)
    (unmade : ∀ base, name = base ++ ".gz" → ¬ Historic settings day base) :
    cleaned form settings day held name = held name :=
  cleaned_eq (fun _ => kept) (fun _ h => unpacked h.1) fun base hbase _ h => unmade base hbase h.1

/-- A log that was packed or blocked on an earlier day is gone or stays, and so it is on a later
one. -/
theorem cleaned_historic (historic : Historic settings day name) :
    cleaned form settings day held name =
      if (held (name ++ ".gz")).isNone then none else held name := by
  split
  · next hfree => exact cleaned_of_packs ⟨historic, hfree⟩
  · next hblocked =>
      exact cleaned_of_kept (turnOf_historic historic) historic.not_expired fun h => hblocked h.2

/-- A log to be packed on a later day, but not on an earlier one, is left alone on that, and so is
its packed form. -/
theorem Historic.cleaned_earlier (later : day.dayNumber ≤ last.dayNumber)
    (historic : Historic settings last name) (unpacked : ¬ Historic settings day name) :
    cleaned form settings day held name = held name ∧
      cleaned form settings day held (name ++ ".gz") = held (name ++ ".gz") := by
  constructor
  · apply cleaned_of_untouched (mt (Expired.mono later) historic.not_expired) unpacked
    rintro base rfl -
    exact not_historic_packed historic
  · apply cleaned_of_untouched (mt (Expired.mono later) historic.not_expired_packed)
      not_historic_packed
    intro base hbase
    rw [String.append_left_inj] at hbase
    exact hbase ▸ unpacked

/-- **A clean-up on an earlier day makes no difference to what a later one leaves.** -/
theorem cleaned_cleaned (later : day.dayNumber ≤ last.dayNumber) :
    cleaned form settings last (cleaned form settings day held) =
      cleaned form settings last held := by
  funext name
  by_cases hexpired : Expired settings last name
  · rw [cleaned_of_expired hexpired, cleaned_of_expired hexpired]
  by_cases historic : Historic settings last name
  · -- a log to be packed: all hangs on its packed form
    rw [cleaned_historic historic, cleaned_historic historic]
    by_cases earlier : Historic settings day name
    · rw [cleaned_historic earlier, cleaned_packed earlier]
      cases held (name ++ ".gz") <;> simp
    · obtain ⟨hname, hpacked⟩ := historic.cleaned_earlier later earlier
      rw [hname, hpacked]
  by_cases hbase : ∃ base, name = base ++ ".gz" ∧ Historic settings last base
  · -- the packed form of such a log: it is there, or the log is
    obtain ⟨base, rfl, historic'⟩ := hbase
    rw [cleaned_packed historic', cleaned_packed historic']
    by_cases earlier : Historic settings day base
    · rw [cleaned_packed earlier, cleaned_historic earlier]
      cases held (base ++ ".gz") <;> simp
    · obtain ⟨hname, hpacked⟩ := historic'.cleaned_earlier later earlier
      rw [hname, hpacked]
  · -- all else stays as it is, on both days
    have hunmade : ∀ base, name = base ++ ".gz" → ¬ Historic settings last base :=
      fun base hname h => hbase ⟨base, hname, h⟩
    have hunmade' : ∀ base, name = base ++ ".gz" → ¬ Historic settings day base := by
      rintro base rfl h
      exact hunmade base rfl (h.mono later (mt h.expired_packed_iff.2 hexpired))
    rw [cleaned_of_untouched hexpired historic hunmade,
      cleaned_of_untouched hexpired historic hunmade]
    exact cleaned_of_untouched (mt (Expired.mono later) hexpired)
      (fun h => historic (h.mono later hexpired)) hunmade'

/-! ## The number of removed logs -/

/-- The name under which a log is kept. -/
def keptName (settings : LogSettings) (day : Date) (held : String → Option α) (name : String) :
    String :=
  if Packs settings day held name then name ++ ".gz" else name

/-- The entries after a clean-up: those that have not expired, under the names under which they are
kept. -/
theorem cleaned_ne_none_iff : cleaned form settings day held name ≠ none ↔
    ∃ log, held log ≠ none ∧ ¬ Expired settings day log ∧
      keptName settings day held log = name := by
  constructor
  · -- what was there is kept under its own name, and what is new was packed from a log
    intro hthere
    have hkept : ¬ Expired settings day name := fun h => hthere (cleaned_of_expired h)
    have hunpacked : ¬ Packs settings day held name := fun h => hthere (cleaned_of_packs h)
    by_cases hnew : held name = none
    · rcases turnOf_cases settings day name with ⟨hself, -⟩ | ⟨base, rfl, historic, -⟩
      · rw [cleaned_of_kept hself hkept hunpacked] at hthere
        exact absurd hnew hthere
      · rw [cleaned_packed historic, hnew, Option.none_or, Ne, Option.map_eq_none_iff] at hthere
        exact ⟨base, hthere, historic.not_expired, if_pos ⟨historic, by rw [hnew]; rfl⟩⟩
    · exact ⟨name, hnew, hkept, if_neg hunpacked⟩
  · rintro ⟨log, hlog, hkept, rfl⟩
    unfold keptName
    split
    · next hpacks =>
        rw [cleaned_packed hpacks.1, Option.isNone_iff_eq_none.1 hpacks.2, Option.none_or, Ne,
          Option.map_eq_none_iff]
        exact hlog
    · next hunpacked =>
        rcases turnOf_cases settings day log with ⟨hself, -⟩ | ⟨base, rfl, historic, -⟩
        · rw [cleaned_of_kept hself hkept hunpacked]
          exact hlog
        · rw [cleaned_packed historic, Option.or_of_isSome (Option.isSome_iff_ne_none.2 hlog)]
          exact hlog

/-- No two logs are kept under one name. -/
theorem keptName_injective {log log' : String} (there : held log ≠ none) (there' : held log' ≠ none)
    (same : keptName settings day held log = keptName settings day held log') : log = log' := by
  unfold keptName at same
  -- a log is packed only where nothing has its packed name
  split at same
  · next hpacks =>
      split at same
      · exact String.append_left_inj _ |>.1 same
      · rw [← same] at there'
        exact absurd (Option.isNone_iff_eq_none.1 hpacks.2) there'
  · split at same
    · next hpacks =>
        rw [same] at there
        exact absurd (Option.isNone_iff_eq_none.1 hpacks.2) there
    · exact same

theorem expired_keptName_iff :
    Expired settings last (keptName settings day held name) ↔ Expired settings last name := by
  unfold keptName
  split
  · next hpacks => exact hpacks.1.expired_packed_iff
  · exact Iff.rfl

/-- Each log is removed once: on the earlier day, or on the later one under the name it is kept
under. -/
theorem countP_expired_add {names names' : List String} (later : day.dayNumber ≤ last.dayNumber)
    (distinct : names.Nodup) (distinct' : names'.Nodup)
    (mem_iff : ∀ name, name ∈ names ↔ held name ≠ none)
    (mem_iff' : ∀ name, name ∈ names' ↔ cleaned form settings day held name ≠ none) :
    names.countP (fun name => Expired settings day name) +
        names'.countP (fun name => Expired settings last name) =
      names.countP (fun name => Expired settings last name) := by
  -- the names afterwards are those of what was kept, so that both days can be counted before
  have hperm : names'.Perm
      ((names.filter fun name => ¬ Expired settings day name).map
        (keptName settings day held)) := by
    refine (List.perm_ext_iff_of_nodup distinct' ?_).2 ?_
    · rw [List.Nodup, List.pairwise_map]
      refine (distinct.filter _).imp_of_mem ?_
      intro log log' hlog hlog' hne hsame
      have hthere := (mem_iff log).1 (List.mem_filter.1 hlog).1
      have hthere' := (mem_iff log').1 (List.mem_filter.1 hlog').1
      exact hne (keptName_injective hthere hthere' hsame)
    · intro name
      rw [mem_iff', cleaned_ne_none_iff]
      simp only [List.mem_map, List.mem_filter, mem_iff, decide_eq_true_eq, and_assoc]
  have hkept : names'.countP (fun name => Expired settings last name) =
      (names.filter fun name => ¬ Expired settings day name).countP
        fun name => Expired settings last name := by
    rw [hperm.countP_eq, List.countP_map]
    congr 1
    funext name
    exact decide_eq_decide.2 expired_keptName_iff
  have hgone : (names.filter fun name => Expired settings day name).countP
        (fun name => Expired settings last name) =
      names.countP fun name => Expired settings day name := by
    rw [List.countP_filter]
    congr 1
    funext name
    by_cases hexpired : Expired settings day name
    · simp [hexpired, hexpired.mono later]
    · simp [hexpired]
  have hsplit := List.countP_eq_countP_filter_add names (fun name => Expired settings last name)
    (fun name => Expired settings day name)
  rw [hkept, hsplit, hgone]
  congr 2
  simp

/-- Nothing in a cleaned directory is due to be packed on the same day. -/
theorem not_packs_cleaned (there : cleaned form settings day held name ≠ none) :
    ¬ Packs settings day (cleaned form settings day held) name := by
  rintro ⟨historic, hfree⟩
  rw [cleaned_packed historic, Option.isNone_iff_eq_none, Option.or_eq_none_iff,
    Option.map_eq_none_iff] at hfree
  rw [cleaned_historic historic, hfree.1] at there
  exact there rfl

/-! ## Packed files up to unpacking -/

/-- An entry of a directory in comparisons. -/
inductive Content where
  | plain (node : Node)
  | packed (data : Bytes) (mode : Nat)

/-- A file with the ending of packed files counts by what it unpacks to, if it unpacks. -/
def content (unpack? : Bytes → Option Bytes) (name : String) (node : Node) : Content :=
  match base? name, node with
  | some _, .file bytes mode =>
      match unpack? bytes with
      | some data => .packed data mode
      | none => .plain node
  | _, _ => .plain node

/-- The entries of a directory in comparisons. -/
def view (unpack? : Bytes → Option Bytes) (held : String → Option Node) (name : String) :
    Option Content :=
  (held name).map (content unpack? name)

/-- The packed form of an entry in comparisons. -/
def Content.packedForm : Content → Content
  | .plain node => .packed node.data Node.newMode
  | .packed data mode => .packed data mode

section View

variable {unpack? : Bytes → Option Bytes} {pack : Bytes → Bytes}

/-- Packing is seen as packing, whichever packing it is. -/
theorem content_packedFile (undone : ∀ data, unpack? (pack data) = some data)
    (historic : Historic settings day name) (node : Node) :
    content unpack? (name ++ ".gz") (packedFile pack node) =
      (content unpack? name node).packedForm := by
  have hbase : base? name = none := by
    rw [Option.eq_none_iff_forall_ne_some]
    intro base hbase
    obtain rfl := base?_eq_some_iff.1 hbase
    exact not_historic_packed historic
  simp only [content, base?_packed, packedFile, undone, hbase, Content.packedForm]

theorem view_cleaned (undone : ∀ data, unpack? (pack data) = some data)
    (held : String → Option Node) :
    view unpack? (cleaned (packedFile pack) settings day held) =
      cleaned Content.packedForm settings day (view unpack? held) := by
  funext name
  exact cleaned_map (fun name node historic => content_packedFile undone historic node) name

end View

/-- Two trees with the same logs, packed files compared by what they unpack to, and the same files
elsewhere. -/
structure SameLogs (unpack? : Bytes → Option Bytes) (place : Location)
    (t t' : FileTree) : Prop where
  elsewhere : ∀ other, (∀ name, other ≠ place ++ [name]) → t.node? other = t'.node? other
  view_eq : view unpack? (t.child? place) = view unpack? (t'.child? place)

/-! ## One directory after another -/

variable {unpack? : Bytes → Option Bytes} {pack pack' : Bytes → Bytes} {t t' t'' : FileTree}
  {report report' : CleanupReport}

/-- A clean-up leaves files as they were or packed, so regular files stay regular files. -/
theorem Cleaned.isRegular (done : Cleaned pack settings day place t t' report)
    (regular : IsRegular t place) : IsRegular t' place := by
  intro name node hnode
  have hall : ∀ name, t.child? place name ≠ none → name ∈ t.namesIn place :=
    fun name => mem_namesIn.2
  rw [done.child_eq, ← midway_eq_cleaned hall] at hnode
  rcases eq_of_midway hnode with hheld | ⟨node', rfl⟩
  · exact regular name node hheld
  · exact ⟨_, _, rfl⟩

/-- The effect of several clean-ups, the last of them on the given day. -/
structure Settled (unpack? : Bytes → Option Bytes) (settings : LogSettings) (last : Date)
    (place : Location) (t t' : FileTree) (removed : Nat) : Prop where
  elsewhere : ∀ other, (∀ name, other ≠ place ++ [name]) → t'.node? other = t.node? other
  view_eq : view unpack? (t'.child? place) =
    cleaned Content.packedForm settings last (view unpack? (t.child? place))
  removed_eq : removed = (t.namesIn place).countP fun name => Expired settings last name

theorem Cleaned.settled (undone : ∀ data, unpack? (pack data) = some data)
    (done : Cleaned pack settings last place t t' report) :
    Settled unpack? settings last place t t' report.removed := by
  refine ⟨done.elsewhere, ?_, by rw [done.report_eq]⟩
  rw [done.child_eq, view_cleaned undone]

/-- A clean-up on an earlier day is absorbed, and its removals count. -/
theorem Cleaned.settled_trans {removed : Nat} (undone : ∀ data, unpack? (pack data) = some data)
    (listed : t.IsListed settings.directory place) (later : day.dayNumber ≤ last.dayNumber)
    (done : Cleaned pack settings day place t t' report)
    (settled : Settled unpack? settings last place t' t'' removed) :
    Settled unpack? settings last place t t'' (report.removed + removed) := by
  constructor
  · intro other hother
    rw [settled.elsewhere other hother, done.elsewhere other hother]
  · rw [settled.view_eq, done.child_eq, view_cleaned undone, cleaned_cleaned later]
  · rw [done.report_eq, settled.removed_eq]
    apply countP_expired_add later (listed.distinct.namesIn place)
      (done.listed.distinct.namesIn place)
    · intro name
      exact mem_namesIn
    · intro name
      rw [mem_namesIn, done.child_eq]

/-- The effect is determined by the initial tree. -/
theorem Settled.unique {removed removed' : Nat}
    (settled : Settled unpack? settings last place t t' removed)
    (settled' : Settled unpack? settings last place t t'' removed') :
    removed = removed' ∧ SameLogs unpack? place t' t'' := by
  refine ⟨settled.removed_eq.trans settled'.removed_eq.symm, ?_, ?_⟩
  · intro other hother
    rw [settled.elsewhere other hother, settled'.elsewhere other hother]
  · rw [settled.view_eq, settled'.view_eq]

/-- A second clean-up on the same day finds nothing to do. -/
theorem Cleaned.again (done : Cleaned pack settings day place t t' report)
    (done' : Cleaned pack' settings day place t' t'' report') :
    report' = {} ∧ ∀ other, t''.node? other = t'.node? other := by
  have hkept (name : String) (there : t'.child? place name ≠ none) :
      ¬ Expired settings day name := by
    intro hexpired
    rw [done.child_eq, cleaned_of_expired hexpired] at there
    exact there rfl
  have hunpacked (name : String) (there : t'.child? place name ≠ none) :
      ¬ Packs settings day (t'.child? place) name := by
    rw [done.child_eq] at there ⊢
    exact not_packs_cleaned there
  constructor
  · have hremoved : report'.removed = 0 := by
      rw [done'.report_eq]
      apply List.countP_eq_zero.2
      intro name hname
      simpa using hkept name (mem_namesIn.1 hname)
    have hcompressed : report'.compressed = 0 := by
      rw [done'.report_eq]
      apply List.countP_eq_zero.2
      intro name hname
      simpa using hunpacked name (mem_namesIn.1 hname)
    cases report'
    simp only at hremoved hcompressed
    rw [hremoved, hcompressed]
  · intro other
    by_cases hbelow : ∃ name, other = place ++ [name]
    · obtain ⟨name, rfl⟩ := hbelow
      have hchild := congrFun done'.child_eq name
      rw [cleaned_eq (hkept name) (hunpacked name) fun base _ => hunpacked base] at hchild
      exact hchild
    · exact done'.elsewhere other (not_exists.1 hbelow)

/-- A log fits under the name it is kept under if and only if it fits under its own. -/
theorem fits_keptName_iff (named : IsName name) (fits : Fits settings day name) :
    Fits settings last (keptName settings day held name) ↔ Fits settings last name := by
  unfold keptName
  split
  · next hpacks =>
      -- both names fitted on the earlier day, and no limit depends on the day
      obtain ⟨hpath, hshort⟩ := fits.historic hpacks.1
      constructor
      · intro _
        exact ⟨fun _ => short_of_packed named.nonempty hpath, fun _ => ⟨hpath, hshort⟩⟩
      · intro _
        exact ⟨fun _ => hpath, fun h => absurd h not_historic_packed⟩
  · exact Iff.rfl

/-- After a clean-up that succeeded, all entries fit on a later day if they did before. -/
theorem Cleaned.fits (listed : t.IsListed settings.directory place)
    (done : Cleaned pack settings day place t t' report)
    (fits : ∀ name, t.child? place name ≠ none → Fits settings day name)
    (later : ∀ name, t.child? place name ≠ none → Fits settings last name) :
    ∀ name, t'.child? place name ≠ none → Fits settings last name := by
  rw [done.child_eq]
  intro name hthere
  obtain ⟨log, hlog, -, rfl⟩ := cleaned_ne_none_iff.1 hthere
  rw [fits_keptName_iff (listed.named log hlog) (fits log hlog)]
  exact later log hlog

/-! ## Day after day -/

/-- A clean-up of a directory, with any packing that the unpacking undoes and any possible listing.
-/
structure Cleans (unpack? : Bytes → Option Bytes) (settings : LogSettings) (place : Location)
    (o : Occasion) (t : FileTree) (result : Except CleanupError CleanupReport) (t' : FileTree) :
    Prop where
  undone : ∀ data, unpack? (o.pack data) = some data
  lists : Lists settings o place t
  run : runOrdered o settings t = (t', result)

/-- Clean-ups on several occasions in turn, whether they succeed or not. -/
inductive CleansDaily (unpack? : Bytes → Option Bytes) (settings : LogSettings) (place : Location) :
    List Occasion → FileTree → List (Except CleanupError CleanupReport) → FileTree → Prop where
  | done (t : FileTree) : CleansDaily unpack? settings place [] t [] t
  | next {o : Occasion} {occasions : List Occasion} {t t' t'' : FileTree}
      {result : Except CleanupError CleanupReport}
      {results : List (Except CleanupError CleanupReport)}
      (first : Cleans unpack? settings place o t result t')
      (rest : CleansDaily unpack? settings place occasions t' results t'') :
      CleansDaily unpack? settings place (o :: occasions) t (result :: results) t''

/-- The day and the first day kept are in the calendar. -/
structure InCalendar (settings : LogSettings) (day : Date) : Prop where
  today : Date.inCalendar day.dayNumber = true
  firstKept : Date.inCalendar (firstKept settings day) = true

variable {result : Except CleanupError CleanupReport}
  {results : List (Except CleanupError CleanupReport)} {o single final : Occasion}
  {occasions : List Occasion} {t₁ t₂ : FileTree}

theorem Cleans.cleaned (inCalendar : InCalendar settings o.today)
    (listed : t.IsListed settings.directory place) (regular : IsRegular t place)
    (cleans : Cleans unpack? settings place o t (.ok report) t') :
    Cleaned o.pack settings o.today place t t' report ∧
      ∀ name, t.child? place name ≠ none → Fits settings o.today name :=
  cleaned_of_runOrdered inCalendar.today inCalendar.firstKept listed regular cleans.lists cleans.run

/-- A clean-up succeeds if no request is refused and no path is too long. -/
theorem Cleans.exists_ok (inCalendar : InCalendar settings o.today)
    (listed : t.IsListed settings.directory place) (regular : IsRegular t place)
    (cleans : Cleans unpack? settings place o t result t') (granting : o.answers = [])
    (fits : ∀ name, t.child? place name ≠ none → Fits settings o.today name) :
    ∃ report, result = .ok report := by
  rcases runOrdered_cases granting inCalendar.today inCalendar.firstKept listed regular
      cleans.lists with ⟨t₁, report, hrun, -⟩ | ⟨-, name, hthere, hlong⟩
  · cases hrun.symm.trans cleans.run
    exact ⟨report, rfl⟩
  · exact absurd (fits name hthere) hlong

/-- The number of logs removed by several clean-ups. -/
def removedInAll : List CleanupReport → Nat
  | [] => 0
  | report :: rest => report.removed + removedInAll rest

/-- Clean-ups in turn that all succeed have the effect of one on the last day. -/
theorem CleansDaily.settled
    (inCalendar : ∀ o ∈ occasions ++ [final], InCalendar settings o.today)
    (ordered : (occasions ++ [final]).Pairwise fun o o' => o.today.dayNumber ≤ o'.today.dayNumber)
    (listed : t.IsListed settings.directory place) (regular : IsRegular t place)
    {reports : List CleanupReport}
    (daily : CleansDaily unpack? settings place (occasions ++ [final]) t (reports.map .ok) t₁) :
    Settled unpack? settings final.today place t t₁ (removedInAll reports) := by
  -- what the first clean-up leaves is again a directory of regular files
  induction occasions generalizing t reports with
  | nil =>
      cases reports with
      | nil => cases daily
      | cons report rest =>
          obtain ⟨⟩ | ⟨hfirst, hrest⟩ := daily
          obtain ⟨hdone, -⟩ := hfirst.cleaned (inCalendar final List.mem_cons_self) listed regular
          cases rest with
          | cons _ _ => cases hrest
          | nil =>
              cases hrest
              exact hdone.settled hfirst.undone
  | cons o occasions ih =>
      cases reports with
      | nil => cases daily
      | cons report rest =>
          obtain ⟨⟩ | ⟨hfirst, hrest⟩ := daily
          rw [List.cons_append, List.forall_mem_cons] at inCalendar
          rw [List.cons_append, List.pairwise_cons] at ordered
          obtain ⟨hdone, -⟩ := hfirst.cleaned inCalendar.1 listed regular
          have hsettled :=
            ih inCalendar.2 ordered.2 hdone.listed (hdone.isRegular regular) hrest
          have hlater := ordered.1 final (List.mem_append_right _ (List.mem_singleton.2 rfl))
          exact hdone.settled_trans hfirst.undone listed hlater hsettled

/-- Clean-ups in turn all succeed, if no request is refused and no path is too long on any day. -/
theorem CleansDaily.all_ok (inCalendar : ∀ o ∈ occasions, InCalendar settings o.today)
    (listed : t.IsListed settings.directory place) (regular : IsRegular t place)
    (daily : CleansDaily unpack? settings place occasions t results t₁)
    (granting : ∀ o ∈ occasions, o.answers = [])
    (fits : ∀ o ∈ occasions, ∀ name, t.child? place name ≠ none → Fits settings o.today name) :
    ∃ reports : List CleanupReport, results = reports.map .ok := by
  induction daily with
  | done t => exact ⟨[], rfl⟩
  | next first rest ih =>
      rw [List.forall_mem_cons] at inCalendar granting fits
      obtain ⟨report, rfl⟩ := first.exists_ok inCalendar.1 listed regular granting.1 fits.1
      obtain ⟨hdone, -⟩ := first.cleaned inCalendar.1 listed regular
      obtain ⟨reports, rfl⟩ := ih inCalendar.2 hdone.listed (hdone.isRegular regular) granting.2
        fun o ho => hdone.fits listed fits.1 (fits.2 o ho)
      exact ⟨report :: reports, rfl⟩

/-- **Clean-ups that were missed do not matter, as long as all succeed.** They do if no request is
refused and no path is too long. Then clean-ups on several days leave the logs that a single one on
the last day leaves, and remove as many in all; another one on the last day changes nothing. -/
theorem daily_as_last (inCalendar : ∀ o ∈ occasions ++ [final], InCalendar settings o.today)
    (ordered : (occasions ++ [final]).Pairwise fun o o' => o.today.dayNumber ≤ o'.today.dayNumber)
    (listed : t.IsListed settings.directory place) (regular : IsRegular t place)
    (daily : CleansDaily unpack? settings place (occasions ++ [final]) t results t₁)
    (once : Cleans unpack? settings place single t result t₂)
    (last_day : single.today = final.today) :
    ((∀ o ∈ occasions ++ [final], o.answers = []) → single.answers = [] →
      (∀ o ∈ occasions ++ [final], ∀ name, t.child? place name ≠ none →
        Fits settings o.today name) →
      (∃ reports : List CleanupReport, results = reports.map .ok) ∧
        ∃ report, result = .ok report) ∧
    ∀ (reports : List CleanupReport) (report : CleanupReport),
      results = reports.map .ok → result = .ok report →
      report.removed = removedInAll reports ∧ SameLogs unpack? place t₁ t₂ ∧
      ∀ (o : Occasion) (result' : Except CleanupError CleanupReport) (t₃ : FileTree),
        o.today = single.today → Cleans unpack? settings place o t₂ result' t₃ →
        (o.answers = [] → result' = .ok {}) ∧
        ∀ report', result' = .ok report' →
          report' = {} ∧ ∀ other, t₃.node? other = t₂.node? other := by
  have hfinal : final ∈ occasions ++ [final] := List.mem_append_right _ (List.mem_singleton.2 rfl)
  have hcalendar : InCalendar settings single.today := last_day ▸ inCalendar final hfinal
  constructor
  · intro hgranting hgranting' hfits
    refine ⟨daily.all_ok inCalendar listed regular hgranting hfits, ?_⟩
    exact once.exists_ok hcalendar listed regular hgranting' (last_day ▸ hfits final hfinal)
  · rintro reports report rfl rfl
    obtain ⟨hdone, hfits⟩ := once.cleaned hcalendar listed regular
    have hsettled := daily.settled inCalendar ordered listed regular
    rw [← last_day] at hsettled
    obtain ⟨hremoved, hsame⟩ := hsettled.unique (hdone.settled once.undone)
    refine ⟨hremoved.symm, hsame, fun o result' t₃ hday hagain => ?_⟩
    rw [← hday] at hcalendar
    have hregular := hdone.isRegular regular
    have hnothing {report' : CleanupReport} (hok : result' = .ok report') :
        report' = {} ∧ ∀ other, t₃.node? other = t₂.node? other := by
      subst hok
      have hdone' := (hagain.cleaned hcalendar hdone.listed hregular).1
      rw [hday] at hdone'
      exact hdone.again hdone'
    refine ⟨fun hgranting => ?_, fun report' => hnothing⟩
    obtain ⟨report', hok⟩ := hagain.exists_ok hcalendar hdone.listed hregular hgranting
      (hday ▸ hdone.fits listed hfits hfits)
    rw [hok, (hnothing hok).1]

/-! ## A month later -/

/-- A clean-up with nothing refused, its entries listed by name. -/
theorem cleans_plain (listed : t.IsListed settings.directory place) (regular : IsRegular t place)
    (day : Date) : Cleans Gzip.unpack? settings place (plainOccasion day) t
      (runOrdered (plainOccasion day) settings t).2 (runOrdered (plainOccasion day) settings t).1 :=
  ⟨Gzip.unpack?_pack, lists_plain listed regular day, rfl⟩

/-- Existence of daily clean-ups on any days, where no path is too long. -/
theorem exists_cleansDaily {days : List Date} (inCalendar : ∀ day ∈ days, InCalendar settings day)
    (listed : t.IsListed settings.directory place) (regular : IsRegular t place)
    (fits : ∀ day ∈ days, ∀ name, t.child? place name ≠ none → Fits settings day name) :
    ∃ results t₁, CleansDaily Gzip.unpack? settings place (days.map plainOccasion) t
      results t₁ := by
  induction days generalizing t with
  | nil => exact ⟨[], t, .done t⟩
  | cons day days ih =>
      rw [List.forall_mem_cons] at inCalendar fits
      have hfirst := cleans_plain listed regular day
      obtain ⟨report, hreport⟩ := hfirst.exists_ok inCalendar.1 listed regular rfl fits.1
      rw [hreport] at hfirst
      obtain ⟨hdone, -⟩ := hfirst.cleaned inCalendar.1 listed regular
      obtain ⟨results, t₁, hrest⟩ := ih inCalendar.2 hdone.listed (hdone.isRegular regular)
        fun day' hday' => hdone.fits listed fits.1 (fits.2 day' hday')
      exact ⟨_, t₁, .next hfirst hrest⟩

/-- A day in the next month. -/
def laterDay : Date :=
  ⟨2026, 4, 20⟩

/-- Two clean-ups on one day. -/
def sampleOccasions : List Occasion :=
  [plainOccasion sampleDay, plainOccasion sampleDay]

/-- The log that is packed on the first day is removed on the last one, and so are the others. -/
theorem daily_as_last_sample :
    ∃ reports report t₁ t₂,
      CleansDaily Gzip.unpack? sampleSettings ["logs"] (sampleOccasions ++ [plainOccasion laterDay])
        sampleLogs (List.map .ok reports) t₁ ∧
      Cleans Gzip.unpack? sampleSettings ["logs"] (plainOccasion laterDay) sampleLogs (.ok report)
        t₂ ∧
      report.removed = removedInAll reports ∧ SameLogs Gzip.unpack? ["logs"] t₁ t₂ ∧
      (runOrdered (plainOccasion laterDay) sampleSettings t₂).2 = .ok {} := by
  have hordered : (sampleOccasions ++ [plainOccasion laterDay]).Pairwise
      fun o o' => o.today.dayNumber ≤ o'.today.dayNumber := by decide +kernel
  have hcalendar : ∀ day ∈ [sampleDay, sampleDay, laterDay], InCalendar sampleSettings day := by
    have hall : ∀ day ∈ [sampleDay, sampleDay, laterDay],
        Date.inCalendar day.dayNumber = true ∧
          Date.inCalendar (firstKept sampleSettings day) = true := by decide +kernel
    exact fun day hday => ⟨(hall day hday).1, (hall day hday).2⟩
  have hcalendar' : ∀ o ∈ sampleOccasions ++ [plainOccasion laterDay],
      InCalendar sampleSettings o.today := by
    intro o ho
    obtain ⟨day, hday, rfl⟩ :=
      List.mem_map.1 (show o ∈ List.map plainOccasion [sampleDay, sampleDay, laterDay] from ho)
    exact hcalendar day hday
  obtain ⟨results, t₁, hdaily⟩ := exists_cleansDaily hcalendar isListed_sample isRegular_sample
    fun day _ => fits_sample day
  have hdaily' : CleansDaily Gzip.unpack? sampleSettings ["logs"]
      (sampleOccasions ++ [plainOccasion laterDay]) sampleLogs results t₁ := hdaily
  have honce := cleans_plain isListed_sample isRegular_sample laterDay
  obtain ⟨hgoes, hall⟩ :=
    daily_as_last hcalendar' hordered isListed_sample isRegular_sample hdaily' honce rfl
  obtain ⟨⟨reports, hreports⟩, report, hreport⟩ :=
    hgoes (by simp [sampleOccasions, plainOccasion]) rfl fun o _ => fits_sample o.today
  obtain ⟨hremoved, hsame, hagain⟩ := hall reports report hreports hreport
  obtain ⟨hdone, -⟩ :=
    Cleans.cleaned (hcalendar laterDay (by simp)) isListed_sample isRegular_sample
    (hreport ▸ honce)
  have hnothing := (hagain (plainOccasion laterDay) _ _ rfl
    (cleans_plain hdone.listed (hdone.isRegular isRegular_sample) laterDay)).1 rfl
  exact ⟨reports, report, t₁, _, hreports ▸ hdaily', hreport ▸ honce, hremoved, hsame, hnothing⟩

/-- A log whose packed form no path leads to stays as it is, and the clean-up ends. -/
theorem compress_of_unnamed {s : State} {path : String} (granting : s.answers = [])
    (unnamed : ∀ other, s.tree.locate (path ++ ".gz") ≠ .ok other) :
    ∃ e, compress pack s path = (s, .error e) := by
  obtain ⟨tree, report, answers⟩ := s
  subst granting
  have hexists : tree.pathExists (path ++ ".gz") = false := by
    cases hlocate : tree.locate (path ++ ".gz") with
    | ok other => exact absurd hlocate (unnamed other)
    | error e => simp [FileTree.pathExists, stat, hlocate, Except.isOk, Except.toBool]
  have hattempt {α : Type} (result : Except IoError α) :
      State.attempt ⟨tree, report, []⟩ result = (⟨tree, report, []⟩, result) :=
    rfl
  unfold compress
  simp only [hexists, Bool.false_eq_true, if_false, hattempt]
  cases tree.stat path with
  | error e => exact ⟨_, rfl⟩
  | ok node =>
      simp only [hattempt]
      cases hcreate : tree.create (path ++ ".gz") with
      | error e => exact ⟨_, rfl⟩
      | ok tree' =>
          obtain ⟨other, -, hnames, -⟩ := exists_put_of_create hcreate
          exact absurd hnames.locate_eq (unnamed other)

/-- Failure of a turn for which `.gz` makes the name too long. -/
theorem step_of_overlong {s : State} (granting : s.answers = [])
    (listed : s.tree.IsListed settings.directory place) (named : IsName name)
    (historic : Historic settings day name) (overlong : isOverlong (name ++ ".gz") = true) :
    ∃ e, step pack settings.directory (choice settings day) s name = (s, .error e) := by
  rw [step_of_granting granting, choice_eq, if_neg historic.not_expired, if_pos historic]
  apply compress_of_unnamed granting
  intro other hlocate
  obtain ⟨hnonempty, hunslashed, hdots⟩ := packed_plain named
  rw [← Path.join_append ".gz" named.nonempty] at hlocate
  have hnames := names_of_locate_join listed.located hnonempty hunslashed hdots hlocate
  have hshort := (hnames.short_join listed.located hnonempty hunslashed).2
  cases hshort.symm.trans overlong

/-- A clean-up whose first turn fails. -/
theorem runOrdered_of_failed {s : State} {e : CleanupError} {rest : List String}
    (granting : o.answers = []) (inCalendar : InCalendar settings o.today)
    (listed : t.IsListed settings.directory place) (listing : o.listing t place = name :: rest)
    (failed : step o.pack settings.directory (choice settings o.today) { tree := t } name =
      (s, .error e)) :
    runOrdered o settings t = (s.tree, .error e) := by
  rw [runOrdered_of_granting granting inCalendar.today inCalendar.firstKept listed, listing]
  simp only [steps, failed]

/-- Where no clean-up succeeds, a second one on the same day fails as the first did. -/
theorem second_run_fails_on_longest_name : ∃ e,
    InCalendar longSettings longDay ∧ longLogs.IsListed longSettings.directory ["logs"] ∧
      IsRegular longLogs ["logs"] ∧
      CleansDaily Gzip.unpack? longSettings ["logs"] [plainOccasion longDay, plainOccasion longDay]
        longLogs [.error e, .error e] longLogs := by
  have hcalendar : InCalendar longSettings longDay := ⟨by decide +kernel, by decide +kernel⟩
  obtain ⟨e, hstep⟩ : ∃ e, step Gzip.pack longSettings.directory (choice longSettings longDay)
      { tree := longLogs } (longStem ++ ".2026-03-18.log") = ({ tree := longLogs }, .error e) :=
    step_of_overlong rfl isListed_long (isListed_long.named _ there_long) historic_long
      overlong_packed
  have hlisting : (plainOccasion longDay).listing longLogs ["logs"] =
      [longStem ++ ".2026-03-18.log"] := by
    rw [Occasion.listing, namesIn_long, List.mergeSort_singleton]
    rfl
  have hrun : runOrdered (plainOccasion longDay) longSettings longLogs = (longLogs, .error e) :=
    runOrdered_of_failed rfl hcalendar isListed_long hlisting hstep
  have hcleans : Cleans Gzip.unpack? longSettings ["logs"] (plainOccasion longDay) longLogs
      (.error e) longLogs :=
    ⟨Gzip.unpack?_pack, lists_plain isListed_long isRegular_long longDay, hrun⟩
  exact ⟨e, hcalendar, isListed_long, isRegular_long, .next hcleans (.next hcleans (.done _))⟩

end Cleanup

end Transcode
