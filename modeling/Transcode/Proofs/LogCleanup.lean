import Transcode.Gzip
import Transcode.Proofs.DirectoryEntries
import Transcode.Proofs.LogFates
/-!
# Cleaning a log directory up

A clean-up takes the entries of the log directory in turn. A successful turn is the same with all
requests granted (`Cleanup.step_granted`), so it suffices to consider clean-ups whose requests are
all granted. There a turn succeeds if the paths it needs are short (`Cleanup.Fits`), and has the
effect of `Cleanup.handled` on the directory (`Cleanup.Turns`). The entries may be listed in any
order, with or without the packed forms made on the way (`Cleanup.Lists`). Every entry is settled in
a turn of its own, so all orders lead to the same directory and the same report
(`Cleanup.runOrdered_settles_fates`).
-/

set_option autoImplicit false

namespace Transcode

/-- A regular file. -/
def Node.IsFile (node : Node) : Prop :=
  ∃ data mode, node = .file data mode

theorem Node.IsFile.ne_directory {node : Node} (file : node.IsFile) : node ≠ .directory := by
  rintro rfl
  obtain ⟨data, mode, h⟩ := file
  cases h

namespace Cleanup

open FileTree

variable {pack : Bytes → Bytes} {settings : LogSettings} {today : Date}
  {name path directory : String}
  {place : Location} {t : FileTree} {s s' : State} {node : Node} {choose : String → Action}
  {names : List String} {o : Occasion}

/-! ## Requests -/

/-- The clean-up with all further requests granted. -/
def State.granted (s : State) : State :=
  { s with answers := [] }

theorem State.tree_granted (s : State) : s.granted.tree = s.tree :=
  rfl

theorem State.tree_eq_of_granted (h : s'.granted = s.granted) : s'.tree = s.tree :=
  show s'.granted.tree = s.granted.tree by rw [h]

theorem State.report_eq_of_granted (h : s'.granted = s.granted) : s'.report = s.report :=
  show s'.granted.report = s.granted.report by rw [h]

theorem State.granted_of_ask {answer : Option Refusal} (h : s.ask = (s', answer)) :
    s'.granted = s.granted := by
  cases congrArg Prod.fst h
  rfl

/-- A request that succeeds was granted. -/
theorem State.granted_of_attempt {α : Type} {result : Except IoError α} {a : α}
    (h : s.attempt result = (s', .ok a)) : s'.granted = s.granted ∧ result = .ok a := by
  unfold attempt at h
  split at h
  · cases h
  · next hasked =>
      cases h
      exact ⟨granted_of_ask hasked, rfl⟩

theorem State.attempt_granted {α : Type} (s : State) (result : Except IoError α) :
    s.granted.attempt result = (s.granted, result) :=
  rfl

theorem fill_granted {packed : String} (h : fill pack s packed node = (s', .ok ())) :
    fill pack s.granted packed node = (s'.granted, .ok ()) := by
  unfold fill at h
  split at h
  · cases h
  next s₁ hasked =>
  split at h
  · cases h
  next hfile =>
  split at h
  · cases h
  next s₂ hasked' =>
  cases h
  have hs : s₂.granted = s.granted :=
    (State.granted_of_ask hasked').trans (State.granted_of_ask hasked)
  simp only [fill, hfile, Bool.false_eq_true, if_false, ← hs]
  rfl

theorem compress_granted (h : compress pack s path = (s', .ok ())) :
    compress pack s.granted path = (s'.granted, .ok ()) := by
  unfold compress at h ⊢
  simp only at h ⊢
  rw [State.tree_granted]
  split at h
  · next hexists =>
      cases h
      rw [if_pos hexists]
  next hexists =>
  rw [if_neg hexists, State.attempt_granted]
  split at h
  · cases h
  next s₁ node hopened =>
  obtain ⟨hs₁, hstat⟩ := State.granted_of_attempt hopened
  simp only [hstat, ← hs₁, State.attempt_granted, State.tree_granted]
  split at h
  · cases h
  next s₂ tree hcreated =>
  obtain ⟨hs₂, hcreate⟩ := State.granted_of_attempt hcreated
  simp only [hcreate, ← hs₂]
  split at h
  · cases h
  next s₃ hfilled =>
  have hfill : fill pack { s₂.granted with tree := tree } (path ++ ".gz") node =
      (s₃.granted, .ok ()) := fill_granted hfilled
  simp only [hfill, State.attempt_granted, State.tree_granted]
  split at h
  · cases h
  next s₄ tree' hremoved =>
  obtain ⟨hs₄, hremove⟩ := State.granted_of_attempt hremoved
  cases h
  simp only [hremove, ← hs₄]
  rfl

theorem remove_granted (h : remove s path = (s', .ok ())) :
    remove s.granted path = (s'.granted, .ok ()) := by
  unfold remove at h ⊢
  split at h
  · cases h
  next s₁ tree hremoved =>
  obtain ⟨hs₁, hremove⟩ := State.granted_of_attempt hremoved
  cases h
  rw [State.attempt_granted, State.tree_granted, hremove, ← hs₁]
  rfl

/-- A successful turn is the same with all requests granted. -/
theorem step_granted (h : step pack directory choose s name = (s', .ok ())) :
    step pack directory choose s.granted name = (s'.granted, .ok ()) := by
  unfold step at h ⊢
  split at h
  · cases h
  next s₁ name' hread =>
  obtain ⟨hs₁, hname⟩ := State.granted_of_attempt hread
  cases hname
  simp only [State.attempt_granted, ← hs₁]
  unfold perform at h ⊢
  cases hchosen : choose name with
  | leave =>
      rw [hchosen] at h
      cases h
      rfl
  | remove =>
      rw [hchosen] at h
      exact remove_granted h
  | compress =>
      rw [hchosen] at h
      exact compress_granted h

theorem steps_granted (h : steps pack directory choose s names = (s', .ok ())) :
    steps pack directory choose s.granted names = (s'.granted, .ok ()) := by
  induction names generalizing s with
  | nil =>
      cases h
      rfl
  | cons name rest ih =>
      rw [steps] at h ⊢
      split at h
      · cases h
      next s₁ hstep =>
      simp only [step_granted hstep]
      exact ih h

/-- A successful clean-up is the same with all requests granted. -/
theorem runOrdered_granted {t' : FileTree} {report : CleanupReport}
    (h : runOrdered o settings t = (t', .ok report)) :
    runOrdered { o with answers := [] } settings t = (t', .ok report) := by
  unfold runOrdered at h ⊢
  split at h
  · next hexists =>
      rw [if_pos hexists]
      split at h
      · cases h
      next cutoff hcutoff =>
      simp only [hcutoff]
      unfold sweep at h ⊢
      split at h
      · cases h
      next s₁ names hlisted =>
      obtain ⟨hs₁, hlist⟩ := State.granted_of_attempt hlisted
      split at h
      · cases h
      next s₂ hsteps =>
      have hsteps' := steps_granted hsteps
      rw [hs₁] at hsteps'
      split at h
      · cases h
      next s₃ report' hended =>
      obtain ⟨hs₃, hreport⟩ := State.granted_of_attempt hended
      cases hreport
      cases h
      have hstart : State.attempt { tree := t } (t.list settings.directory) =
          ({ tree := t }, .ok names) := by rw [hlist]; rfl
      have hgranted : State.granted { tree := t, answers := o.answers } = { tree := t } := rfl
      rw [hgranted] at hsteps'
      simp only [hstart, hsteps', State.attempt_granted, ← hs₃, State.tree_granted]
      rw [← State.report_eq_of_granted hs₃]
      rfl
  · next hexists =>
      rw [if_neg hexists]
      exact h

/-! ## The paths of a turn -/

/-- The paths that the turn of an entry needs are short: the path of a log to be removed, and the
path and the name of the packed form of a log to be packed. -/
structure Fits (settings : LogSettings) (today : Date) (name : String) : Prop where
  expired : Expired settings today name → IsShortPath (Path.join settings.directory name)
  historic : Historic settings today name →
    IsShortPath (Path.join settings.directory (name ++ ".gz")) ∧ isOverlong (name ++ ".gz") = false

/-- With `.gz` appended, no name is empty or a step within the tree. -/
theorem packed_plain (named : IsName name) :
    (name ++ ".gz").toList ≠ [] ∧ '/' ∉ (name ++ ".gz").toList ∧
      name ++ ".gz" ≠ "." ∧ name ++ ".gz" ≠ ".." := by
  have hlong : 3 ≤ (name ++ ".gz").toList.length := by simp
  refine ⟨?_, ?_, ?_, ?_⟩
  · intro hempty
    simp [hempty] at hlong
  · simp [named.unslashed]
  · intro hdot
    simp [hdot] at hlong
  · intro hup
    simp [hup] at hlong

theorem isName_packed (named : IsName name) (short : isOverlong (name ++ ".gz") = false) :
    IsName (name ++ ".gz") := by
  obtain ⟨hnonempty, hunslashed, hdot, hup⟩ := packed_plain named
  exact ⟨hnonempty, hunslashed, by simp [named.unended], hdot, hup, short⟩

theorem short_of_packed (nonempty : name.toList ≠ [])
    (short : IsShortPath (Path.join settings.directory (name ++ ".gz"))) :
    IsShortPath (Path.join settings.directory name) := by
  rw [Path.join_append ".gz" nonempty, IsShortPath, String.utf8ByteSize_append] at short
  exact Nat.lt_of_le_of_lt (Nat.le_add_right _ _) short

/-- The packed form of a file. -/
def packedFile (pack : Bytes → Bytes) (node : Node) : Node :=
  .file (pack node.data) Node.newMode

/-- A log whose packed form is there is left alone. -/
theorem compress_of_there (names : s.tree.Names (path ++ ".gz") place)
    (there : s.tree.node? place = some node) : compress pack s path = (s, .ok ()) := by
  have hexists : s.tree.pathExists (path ++ ".gz") = true := by
    rw [pathExists_of_names names, there, Option.isSome_some]
  simp only [compress, hexists, if_true]

/-- With all requests granted, the contents of a file are packed. -/
theorem fill_of_file {packed : String} (granting : s.answers = [])
    (file : node.isDirectory = false) :
    fill pack s packed node = (s.append packed (pack node.data), .ok ()) := by
  obtain ⟨tree, report, answers⟩ := s
  subst granting
  simp only [fill, State.ask, file, List.head?_nil, Option.join_none, List.tail_nil,
    Bool.false_eq_true, if_false]

/-- A log whose packed form is not there is packed beside itself and removed. -/
theorem compress_of_free {packed : Location} {data : Bytes} {mode : Nat}
    (granting : s.answers = []) (names : s.tree.Names path place)
    (names' : s.tree.Names (path ++ ".gz") packed) (distinct : place ≠ packed)
    (there : s.tree.node? place = some (.file data mode)) (free : s.tree.node? packed = none) :
    compress pack s path =
      ({ s with
          tree := (s.tree.put packed (packedFile pack (.file data mode))).drop place
          report := { s.report with compressed := s.report.compressed + 1 } }, .ok ()) := by
  obtain ⟨tree, report, answers⟩ := s
  subst granting
  have hexists : tree.pathExists (path ++ ".gz") = false := by
    rw [pathExists_of_names names', free, Option.isSome_none]
  -- the packed form is made empty and then filled, and only after that the log goes
  have hcreated := create_of_names names' free
  have hfilled : (tree.put packed (.file [] Node.newMode)).append (path ++ ".gz") (pack data) =
      tree.put packed (packedFile pack (.file data mode)) :=
    append_put_of_names names' free (pack data)
  have hremoved : (tree.put packed (packedFile pack (.file data mode))).removeFile path =
      .ok ((tree.put packed (packedFile pack (.file data mode))).drop place) := by
    have same : SameDirectories tree (tree.put packed (packedFile pack (.file data mode))) :=
      sameDirectories_put names'.ne_nil (by simp [free]) (by simp [packedFile])
    have hthere : (tree.put packed (packedFile pack (.file data mode))).node? place =
        some (.file data mode) := by
      rw [tree.node?_put names'.ne_nil, if_neg distinct, there]
    exact removeFile_of_names (same.names names) hthere (by simp)
  have hattempt {α : Type} (tree' : FileTree) (report' : CleanupReport)
      (result : Except IoError α) :
      State.attempt ⟨tree', report', []⟩ result = (⟨tree', report', []⟩, result) :=
    rfl
  have hfill : fill pack ⟨tree.put packed (.file [] Node.newMode), report, []⟩ (path ++ ".gz")
      (.file data mode) =
        (⟨tree.put packed (packedFile pack (.file data mode)), report, []⟩, .ok ()) := by
    rw [fill_of_file rfl rfl, ← hfilled]
    rfl
  simp only [compress, hexists, stat_of_names names there, hcreated, Bool.false_eq_true, if_false,
    hattempt, hfill, hremoved]

/-! ## One turn in a file tree -/

/-- The action chosen for an entry, with the first day to be kept as counted from today. -/
def choice (settings : LogSettings) (today : Date) : String → Action :=
  action settings today (firstKept settings today)

theorem choice_eq (settings : LogSettings) (today : Date) (name : String) :
    choice settings today name =
      if Expired settings today name then .remove
      else if Historic settings today name then .compress else .leave :=
  action_eq settings today name

/-- The effect of a successful turn on the directory, on all other locations, and on the report. -/
structure Turns (pack : Bytes → Bytes) (settings : LogSettings) (today : Date) (place : Location)
    (s : State) (name : String) (s' : State) : Prop where
  listed : s'.tree.IsListed settings.directory place
  granting : s'.answers = []
  workingDirectory : s'.tree.workingDirectory = s.tree.workingDirectory
  elsewhere : ∀ other, (∀ name, other ≠ place ++ [name]) → s'.tree.node? other = s.tree.node? other
  child_eq : s'.tree.child? place =
    handled (packedFile pack) settings today (s.tree.child? place) name
  report_eq : s'.report =
    { removed := s.report.removed + if Expired settings today name then 1 else 0
      compressed := s.report.compressed +
        if Packs settings today (s.tree.child? place) name then 1 else 0 }

theorem turns_remove (granting : s.answers = []) (listed : s.tree.IsListed settings.directory place)
    (there : s.tree.child? place name = some node) (file : node.IsFile)
    (expired : Expired settings today name) :
    Turns pack settings today place s name
      { s with
        tree := s.tree.drop (place ++ [name])
        report := { s.report with removed := s.report.removed + 1 } } := by
  have hunpacked : ¬ Packs settings today (s.tree.child? place) name :=
    fun h => h.1.not_expired expired
  refine ⟨listed.drop ?_, granting, rfl, ?_, ?_, ?_⟩
  · rw [there]
    intro h
    exact file.ne_directory (Option.some.inj h)
  · intro other hother
    rw [node?_drop _ (by simp), if_neg (hother name)]
  · funext other
    rw [child?_drop, handled, if_pos expired]
  · simp only [expired, hunpacked, if_true, if_false, Nat.add_zero]

theorem turns_compress (granting : s.answers = [])
    (listed : s.tree.IsListed settings.directory place)
    (there : s.tree.child? place name = some node) (file : node.IsFile)
    (short : isOverlong (name ++ ".gz") = false)
    (packs : Packs settings today (s.tree.child? place) name) :
    Turns pack settings today place s name
      { s with
        tree :=
          (s.tree.put (place ++ [name ++ ".gz"]) (packedFile pack node)).drop (place ++ [name])
        report := { s.report with compressed := s.report.compressed + 1 } } := by
  have hnamed := listed.named name (by rw [there]; exact Option.some_ne_none _)
  have hkept : ¬ Expired settings today name := packs.1.not_expired
  have hfree : s.tree.child? place (name ++ ".gz") = none := Option.isNone_iff_eq_none.1 packs.2
  have hlisted : (s.tree.put (place ++ [name ++ ".gz"]) (packedFile pack node)).IsListed
      settings.directory place :=
    listed.put (isName_packed hnamed short) (by simp [hfree]) _ _
  refine ⟨hlisted.drop ?_, granting, rfl, ?_, ?_, ?_⟩
  · rw [child?_put, if_neg (packed_ne name).symm, there]
    intro h
    exact file.ne_directory (Option.some.inj h)
  · intro other hother
    rw [node?_drop _ (by simp), if_neg (hother name), node?_put _ (by simp),
      if_neg (hother (name ++ ".gz"))]
  · funext other
    rw [child?_drop, child?_put, handled, if_neg hkept, if_pos packs, there, Option.map_some]
  · simp only [hkept, packs, if_true, if_false, Nat.add_zero]

theorem turns_refl (granting : s.answers = []) (listed : s.tree.IsListed settings.directory place)
    (kept : ¬ Expired settings today name)
    (unpacked : ¬ Packs settings today (s.tree.child? place) name) :
    Turns pack settings today place s name s := by
  refine ⟨listed, granting, rfl, fun _ _ => rfl, ?_, ?_⟩
  · rw [handled, if_neg kept, if_neg unpacked]
  · simp only [kept, unpacked, if_false, Nat.add_zero]

/-- With its request granted, the turn of an entry is the action chosen for it. -/
theorem step_of_granting (granting : s.answers = []) :
    step pack directory choose s name =
      perform pack s (Path.join directory name) (choose name) := by
  obtain ⟨tree, report, answers⟩ := s
  subst granting
  rfl

theorem remove_of_granting (granting : s.answers = []) {tree : FileTree}
    (removed : s.tree.removeFile path = .ok tree) :
    remove s path =
      ({ s with tree, report := { s.report with removed := s.report.removed + 1 } }, .ok ()) := by
  obtain ⟨tree, report, answers⟩ := s
  subst granting
  simp only [remove, removed]
  rfl

/-- The turn of an entry that is there succeeds if its paths are short. -/
theorem exists_turns (granting : s.answers = []) (listed : s.tree.IsListed settings.directory place)
    (there : s.tree.child? place name = some node) (file : node.IsFile)
    (fits : Fits settings today name) :
    ∃ s', step pack settings.directory (choice settings today) s name = (s', .ok ()) ∧
      Turns pack settings today place s name s' := by
  have hnamed := listed.named name (by rw [there]; exact Option.some_ne_none _)
  rw [step_of_granting granting, choice_eq]
  by_cases hexpired : Expired settings today name
  · have hnames := names_join listed.located listed.there hnamed (fits.expired hexpired)
    have hremoved := removeFile_of_names hnames there file.ne_directory
    refine ⟨_, ?_, turns_remove granting listed there file hexpired⟩
    rw [if_pos hexpired]
    exact remove_of_granting granting hremoved
  · by_cases historic : Historic settings today name
    · rw [if_neg hexpired, if_pos historic]
      -- the path of the log is not too long, as that of its packed form is longer
      obtain ⟨hpath, hshort⟩ := fits.historic historic
      have hnames := names_join listed.located listed.there hnamed
        (short_of_packed hnamed.nonempty hpath)
      have hnames' := names_join listed.located listed.there (isName_packed hnamed hshort) hpath
      rw [Path.join_append ".gz" hnamed.nonempty] at hnames'
      cases hpacked : s.tree.child? place (name ++ ".gz") with
      | none =>
          obtain ⟨data, mode, rfl⟩ := file
          refine ⟨_, compress_of_free granting hnames hnames' ?_ there hpacked,
            turns_compress granting listed there ⟨data, mode, rfl⟩ hshort
              ⟨historic, by rw [hpacked]; rfl⟩⟩
          simpa using (packed_ne name).symm
      | some node' =>
          refine ⟨s, compress_of_there hnames' hpacked, turns_refl granting listed hexpired ?_⟩
          rintro ⟨-, hnone⟩
          rw [hpacked] at hnone
          cases hnone
    · rw [if_neg hexpired, if_neg historic]
      exact ⟨s, rfl, turns_refl granting listed hexpired fun h => historic h.1⟩

/-- A packed form that is found or made has a path that names it. -/
theorem exists_names_of_compress
    (names : ∀ other, s.tree.locate (path ++ ".gz") = .ok other →
      s.tree.Names (path ++ ".gz") other)
    (h : compress pack s path = (s', .ok ())) : ∃ other, s.tree.Names (path ++ ".gz") other := by
  unfold compress at h
  simp only at h
  split at h
  · next hexists =>
      cases hstat : s.tree.stat (path ++ ".gz") with
      | error e => simp [pathExists, hstat, Except.isOk, Except.toBool] at hexists
      | ok node =>
          obtain ⟨other, hlocate, -⟩ := stat_eq_ok_iff.1 hstat
          exact ⟨other, names other hlocate⟩
  · split at h
    · cases h
    next s₁ node hopened =>
    split at h
    · cases h
    next s₂ tree hcreated =>
    have htree := State.tree_eq_of_granted (State.granted_of_attempt hopened).1
    obtain ⟨other, _, hnames, -, -⟩ :=
      exists_put_of_create (State.granted_of_attempt hcreated).2
    exact ⟨other, htree ▸ hnames⟩

/-- The paths that a turn needed are short, if it went well. -/
theorem fits_of_step (granting : s.answers = []) (listed : s.tree.IsListed settings.directory place)
    (named : IsName name)
    (h : step pack settings.directory (choice settings today) s name = (s', .ok ())) :
    Fits settings today name := by
  rw [step_of_granting granting, choice_eq] at h
  constructor
  · intro hexpired
    simp only [hexpired, if_true, perform, remove] at h
    split at h
    · cases h
    · next hremoved =>
        obtain ⟨other, hnames, -, -⟩ :=
          exists_drop_of_removeFile (State.granted_of_attempt hremoved).2
        exact (hnames.short_join listed.located named.nonempty named.unslashed).1
  · intro historic
    simp only [historic.not_expired, historic, if_true, if_false, perform] at h
    -- `isName_packed` does not apply yet: that the packed name is short is what is to be shown
    obtain ⟨hnonempty, hunslashed, hdots⟩ := packed_plain named
    obtain ⟨other, hnames⟩ := exists_names_of_compress (fun other hlocate => by
      rw [← Path.join_append ".gz" named.nonempty] at hlocate ⊢
      exact names_of_locate_join listed.located hnonempty hunslashed hdots hlocate) h
    rw [← Path.join_append ".gz" named.nonempty] at hnames
    exact hnames.short_join listed.located hnonempty hunslashed

/-! ## Turns in any order -/

/-- Each entry is there when its turn comes, as long as all turns before it went well. -/
def InTurn (pack : Bytes → Bytes) (settings : LogSettings) (today : Date) (place : Location) :
    State → List String → Prop
  | _, [] => True
  | s, name :: rest =>
      s.tree.child? place name ≠ none ∧
        ∀ s', step pack settings.directory (choice settings today) s name = (s', .ok ()) →
          InTurn pack settings today place s' rest

/-- The listing of a directory on an occasion. -/
def Occasion.listing (o : Occasion) (t : FileTree) (place : Location) : List String :=
  o.arrange ((t.namesIn place).mergeSort fun a b => a ≤ b)

/-- A listing that the entries of a directory can have while it is cleaned up: all that was there is
listed, nothing is listed twice, and what is listed is there at that time. Packed forms made on the
way may be listed or not. -/
structure Lists (settings : LogSettings) (o : Occasion) (place : Location)
    (t : FileTree) : Prop where
  distinct : (o.listing t place).Nodup
  complete : ∀ name, t.child? place name ≠ none → name ∈ o.listing t place
  inTurn : InTurn o.pack settings o.today place { tree := t } (o.listing t place)

/-- A clean-up in which the turns of some entries went well. -/
structure Reached (pack : Bytes → Bytes) (settings : LogSettings) (today : Date) (place : Location)
    (t : FileTree) (front : List String) (s : State) : Prop where
  listed : s.tree.IsListed settings.directory place
  granting : s.answers = []
  workingDirectory : s.tree.workingDirectory = t.workingDirectory
  elsewhere : ∀ other, (∀ name, other ≠ place ++ [name]) → s.tree.node? other = t.node? other
  child_eq : s.tree.child? place = midway (packedFile pack) settings today (t.child? place) front
  report_eq : s.report =
    { removed := front.countP fun name => Expired settings today name
      compressed := front.countP fun name => Packs settings today (t.child? place) name }
  expected : ∀ name ∈ front, t.child? place name ≠ none ∨
    ¬ Expired settings today name ∧ ¬ Historic settings today name

variable {front rest : List String}

theorem Reached.start (listed : t.IsListed settings.directory place) :
    Reached pack settings today place t [] { tree := t } := by
  refine ⟨listed, rfl, rfl, fun _ _ => rfl, ?_, rfl, by simp⟩
  funext name
  exact (midway_of_fresh List.not_mem_nil).symm

/-- An entry that is there at its turn was there at the start, or was made on the way and is left
alone. -/
theorem Reached.expected_of_there (reached : Reached pack settings today place t front s)
    (there : s.tree.child? place name ≠ none) :
    t.child? place name ≠ none ∨ ¬ Expired settings today name ∧
      ¬ Historic settings today name := by
  by_cases habsent : t.child? place name = none
  · rw [reached.child_eq, midway, habsent] at there
    split at there
    · exact .inr (of_cleaned_ne_none habsent there)
    · exact absurd rfl there
  · exact .inl habsent

theorem Reached.turn (reached : Reached pack settings today place t front s) (fresh : name ∉ front)
    (there : s.tree.child? place name ≠ none) (turns : Turns pack settings today place s name s') :
    Reached pack settings today place t (front ++ [name]) s' := by
  refine ⟨turns.listed, turns.granting,
    turns.workingDirectory.trans reached.workingDirectory, ?_, ?_,
    ?_, ?_⟩
  · intro other hother
    rw [turns.elsewhere other hother, reached.elsewhere other hother]
  · rw [turns.child_eq, reached.child_eq, handled_midway fresh]
  · rw [turns.report_eq, reached.report_eq, reached.child_eq]
    simp [List.countP_append, List.countP_cons, packs_midway_iff fresh]
  · intro other hother
    rcases List.mem_append.1 hother with hfront | hname
    · exact reached.expected other hfront
    · obtain rfl := List.mem_singleton.1 hname
      exact reached.expected_of_there there

/-- The entries of a directory are regular files. -/
def IsRegular (t : FileTree) (place : Location) : Prop :=
  ∀ name node, t.child? place name = some node → node.IsFile

theorem Reached.isRegular (reached : Reached pack settings today place t front s)
    (regular : IsRegular t place) : IsRegular s.tree place := by
  intro name node hnode
  rw [reached.child_eq] at hnode
  rcases eq_of_midway hnode with hheld | ⟨node', rfl⟩
  · exact regular name node hheld
  · exact ⟨_, _, rfl⟩

/-- With all requests granted, a turn succeeds if and only if the paths it needs are short. -/
theorem Reached.step (reached : Reached pack settings today place t front s)
    (regular : IsRegular t place) (fresh : name ∉ front) (there : s.tree.child? place name ≠ none) :
    (∃ s', Cleanup.step pack settings.directory (choice settings today) s name = (s', .ok ()) ∧
        Reached pack settings today place t (front ++ [name]) s' ∧ Fits settings today name) ∨
    (∃ s' e, Cleanup.step pack settings.directory (choice settings today) s name = (s', .error e)) ∧
        t.child? place name ≠ none ∧ ¬ Fits settings today name := by
  by_cases fits : Fits settings today name
  · obtain ⟨node, hnode⟩ := Option.ne_none_iff_exists'.1 there
    have hfile := reached.isRegular regular name node hnode
    obtain ⟨s', hstep, hturns⟩ := exists_turns reached.granting reached.listed hnode hfile fits
    exact .inl ⟨s', hstep, reached.turn fresh there hturns, fits⟩
  · refine .inr ⟨?_, ?_, fits⟩
    · cases hstep : Cleanup.step pack settings.directory (choice settings today) s name with
      | mk s' result =>
          cases result with
          | error e => exact ⟨s', e, rfl⟩
          | ok _ =>
              have hnamed := reached.listed.named name there
              exact absurd (fits_of_step reached.granting reached.listed hnamed hstep) fits
    · -- an entry made on the way needs no path, so it cannot be the one that does not fit
      rcases reached.expected_of_there there with hthere | ⟨hkept, hunpacked⟩
      · exact hthere
      · exact absurd ⟨fun h => absurd h hkept, fun h => absurd h hunpacked⟩ fits

/-- The turns succeed to the end, or one of them meets an entry with an overlong path. -/
theorem Reached.steps (reached : Reached pack settings today place t front s)
    (regular : IsRegular t place) (distinct : (front ++ rest).Nodup)
    (inTurn : InTurn pack settings today place s rest) :
    (∃ s', Cleanup.steps pack settings.directory (choice settings today) s rest = (s', .ok ()) ∧
        Reached pack settings today place t (front ++ rest) s' ∧
        ∀ name ∈ rest, Fits settings today name) ∨
    (∃ s' e, Cleanup.steps pack settings.directory (choice settings today) s rest =
      (s', .error e)) ∧
        ∃ name, t.child? place name ≠ none ∧ ¬ Fits settings today name := by
  -- the entries before stand in `front`, so that the state is known from them
  induction rest generalizing front s with
  | nil => exact .inl ⟨s, rfl, by rwa [List.append_nil], by simp⟩
  | cons name rest ih =>
      obtain ⟨hthere, hnext⟩ := inTurn
      have hfresh : name ∉ front := by
        intro hmem
        exact (List.nodup_append.1 distinct).2.2 name hmem name List.mem_cons_self rfl
      rcases reached.step regular hfresh hthere with
        ⟨s', hstep, hreached, hfits⟩ | ⟨⟨s', e, hstep⟩, hlong⟩
      · rw [List.append_cons] at distinct
        simp only [Cleanup.steps, hstep]
        rcases ih hreached distinct (hnext s' hstep) with ⟨s'', hsteps, hreached', hall⟩ | hfailed
        · rw [← List.append_cons] at hreached'
          exact .inl ⟨s'', hsteps, hreached', List.forall_mem_cons.2 ⟨hfits, hall⟩⟩
        · exact .inr hfailed
      · simp only [Cleanup.steps, hstep]
        exact .inr ⟨⟨s', e, rfl⟩, name, hlong⟩

/-- Every order of the initial entries is a listing. -/
theorem Reached.inTurn (reached : Reached pack settings today place t front s)
    (regular : IsRegular t place) (distinct : (front ++ rest).Nodup)
    (there : ∀ name ∈ rest, t.child? place name ≠ none) :
    InTurn pack settings today place s rest := by
  -- a turn takes away nothing that was there and has its own turn still before it
  induction rest generalizing front s with
  | nil => trivial
  | cons name rest ih =>
      have hfresh : name ∉ front := by
        intro hmem
        exact (List.nodup_append.1 distinct).2.2 name hmem name List.mem_cons_self rfl
      obtain ⟨hname, hrest⟩ := List.forall_mem_cons.1 there
      have hthere : s.tree.child? place name ≠ none := by
        rw [reached.child_eq]
        exact midway_ne_none hname hfresh
      refine ⟨hthere, ?_⟩
      intro s' hstep
      rcases reached.step regular hfresh hthere with
        ⟨s'', hstep', hreached, -⟩ | ⟨⟨s'', e, hstep'⟩, -⟩
      · cases hstep'.symm.trans hstep
        exact ih hreached (List.append_cons .. ▸ distinct) hrest
      · cases hstep'.symm.trans hstep

theorem lists_of_perm (listed : t.IsListed settings.directory place) (regular : IsRegular t place)
    (perm : (o.listing t place).Perm (t.namesIn place)) : Lists settings o place t := by
  have hdistinct : (o.listing t place).Nodup := perm.nodup_iff.2 (listed.distinct.namesIn place)
  refine ⟨hdistinct, ?_, ?_⟩
  · intro name hname
    exact perm.mem_iff.2 (mem_namesIn.2 hname)
  · apply (Reached.start listed).inTurn regular
    · exact hdistinct
    · intro name hname
      exact mem_namesIn.1 (perm.mem_iff.1 hname)

/-! ## The whole clean-up -/

/-- The effect of a clean-up that went well. -/
structure Cleaned (pack : Bytes → Bytes) (settings : LogSettings) (today : Date) (place : Location)
    (t t' : FileTree) (report : CleanupReport) : Prop where
  listed : t'.IsListed settings.directory place
  workingDirectory : t'.workingDirectory = t.workingDirectory
  elsewhere : ∀ other, (∀ name, other ≠ place ++ [name]) → t'.node? other = t.node? other
  child_eq : t'.child? place = cleaned (packedFile pack) settings today (t.child? place)
  report_eq : report =
    { removed := (t.namesIn place).countP fun name => Expired settings today name
      compressed :=
        (t.namesIn place).countP fun name => Packs settings today (t.child? place) name }

/-- Two lists without duplicates have the same count, if they have the same elements that count. -/
theorem countP_eq_of_mem_iff {α : Type} {p : α → Bool} {l l' : List α} (distinct : l.Nodup)
    (distinct' : l'.Nodup) (same : ∀ a, p a = true → (a ∈ l ↔ a ∈ l')) :
    l.countP p = l'.countP p := by
  have hperm : (l.filter p).Perm (l'.filter p) := by
    rw [List.perm_ext_iff_of_nodup (distinct.filter p) (distinct'.filter p)]
    intro a
    simp only [List.mem_filter]
    exact and_congr_left (same a)
  rw [List.countP_eq_length_filter, List.countP_eq_length_filter, hperm.length_eq]

theorem Reached.cleaned (listed : t.IsListed settings.directory place)
    (lists : Lists settings o place t)
    (reached : Reached o.pack settings o.today place t (o.listing t place) s) :
    Cleaned o.pack settings o.today place t s.tree s.report := by
  refine ⟨reached.listed, reached.workingDirectory, reached.elsewhere, ?_, ?_⟩
  · rw [reached.child_eq, midway_eq_cleaned lists.complete]
  · -- what was made on the way does not count
    have hcount (p : String → Prop) [DecidablePred p]
        (matters : ∀ name, p name → Expired settings o.today name ∨
          Historic settings o.today name) :
        (o.listing t place).countP (fun name => p name) =
          (t.namesIn place).countP fun name => p name := by
      apply countP_eq_of_mem_iff lists.distinct (listed.distinct.namesIn place)
      intro name hname
      rw [mem_namesIn]
      refine ⟨fun hmem => ?_, lists.complete name⟩
      rcases reached.expected name hmem with hthere | ⟨hkept, hunpacked⟩
      · exact hthere
      · exact ((matters name (of_decide_eq_true hname)).elim hkept hunpacked).elim
    rw [reached.report_eq, hcount _ (fun _ => .inl), hcount _ (fun _ h => .inr h.1)]

/-- With all requests granted, going through a directory is the sequence of its turns. -/
theorem runOrdered_of_granting (granting : o.answers = [])
    (calendar : Date.inCalendar o.today.dayNumber = true)
    (representable : Date.inCalendar (firstKept settings o.today) = true)
    (listed : t.IsListed settings.directory place) :
    runOrdered o settings t =
      match steps o.pack settings.directory (choice settings o.today) { tree := t }
        (o.listing t place) with
      | (s, .error e) => (s.tree, .error e)
      | (s, .ok ()) =>
          match s.attempt (.ok s.report) with
          | (s, .error e) => (s.tree, .error (.io e))
          | (s, .ok report) => (s.tree, .ok report) := by
  have hstart : State.attempt { tree := t, answers := o.answers } (t.list settings.directory) =
      ({ tree := t }, .ok ((t.namesIn place).mergeSort fun a b => a ≤ b)) := by
    rw [granting, listed.list_eq]
    rfl
  rw [runOrdered, listed.pathExists, if_pos rfl, cutoff?_eq calendar representable]
  simp only [sweep, hstart]
  rfl

/-- With all requests granted, a clean-up succeeds if and only if the paths it needs are short. -/
theorem runOrdered_cases (granting : o.answers = [])
    (calendar : Date.inCalendar o.today.dayNumber = true)
    (representable : Date.inCalendar (firstKept settings o.today) = true)
    (listed : t.IsListed settings.directory place) (regular : IsRegular t place)
    (lists : Lists settings o place t) :
    (∃ t' report, runOrdered o settings t = (t', .ok report) ∧
        Cleaned o.pack settings o.today place t t' report ∧
        ∀ name, t.child? place name ≠ none → Fits settings o.today name) ∨
    (∃ t' e, runOrdered o settings t = (t', .error e)) ∧
        ∃ name, t.child? place name ≠ none ∧ ¬ Fits settings o.today name := by
  have hdistinct : ([] ++ o.listing t place).Nodup := lists.distinct
  rw [runOrdered_of_granting granting calendar representable listed]
  rcases (Reached.start listed).steps regular hdistinct lists.inTurn with
    ⟨s, hsteps, hreached, hfits⟩ | ⟨⟨s, e, hsteps⟩, hlong⟩
  · have hended : s.attempt (.ok s.report) = (s, .ok s.report) := by
      have hgranting := hreached.granting
      obtain ⟨tree, report, answers⟩ := s
      cases hgranting
      rfl
    rw [hsteps]
    simp only [hended]
    refine .inl ⟨s.tree, s.report, rfl, hreached.cleaned listed lists, ?_⟩
    intro name hname
    exact hfits name (lists.complete name hname)
  · rw [hsteps]
    exact .inr ⟨⟨s.tree, e, rfl⟩, hlong⟩

/-- The effect of a successful clean-up, for all answers of the system. -/
theorem cleaned_of_runOrdered {t' : FileTree} {report : CleanupReport}
    (calendar : Date.inCalendar o.today.dayNumber = true)
    (representable : Date.inCalendar (firstKept settings o.today) = true)
    (listed : t.IsListed settings.directory place) (regular : IsRegular t place)
    (lists : Lists settings o place t) (run : runOrdered o settings t = (t', .ok report)) :
    Cleaned o.pack settings o.today place t t' report ∧
      ∀ name, t.child? place name ≠ none → Fits settings o.today name := by
  have hrun := runOrdered_granted run
  have hlists : Lists settings { o with answers := [] } place t :=
    ⟨lists.distinct, lists.complete, lists.inTurn⟩
  rcases runOrdered_cases (o := { o with answers := [] }) rfl calendar representable listed regular
      hlists with
    ⟨t'', report', hrun', hdone, hfits⟩ | ⟨⟨t'', e, hrun'⟩, -⟩
  · cases hrun.symm.trans hrun'
    exact ⟨hdone, hfits⟩
  · cases hrun.symm.trans hrun'

/-- The fates of the files in a log directory. -/
structure Fates (unpack? : Bytes → Option Bytes) (settings : LogSettings) (today : Date)
    (place : Location) (t t' : FileTree) : Prop where
  /-- Logs of days before the first one to be kept are gone, packed or not. -/
  expired : ∀ name, Expired settings today name → t'.child? place name = none
  /-- Logs to be packed are replaced by a file that unpacks to their contents. -/
  packed : ∀ name data mode, t.child? place name = some (.file data mode) →
    Packs settings today (t.child? place) name →
      t'.child? place name = none ∧ ∃ bytes mode',
        t'.child? place (name ++ ".gz") = some (.file bytes mode') ∧ unpack? bytes = some data
  /-- All else is as it was. -/
  kept : ∀ other,
    (∀ name, t.child? place name ≠ none → Expired settings today name → other ≠ place ++ [name]) →
    (∀ name, t.child? place name ≠ none → Packs settings today (t.child? place) name →
      other ≠ place ++ [name] ∧ other ≠ place ++ [name ++ ".gz"]) →
    t'.node? other = t.node? other

theorem Cleaned.fates {unpack? : Bytes → Option Bytes} {t' : FileTree} {report : CleanupReport}
    (undone : ∀ data, unpack? (pack data) = some data)
    (done : Cleaned pack settings today place t t' report) :
    Fates unpack? settings today place t t' := by
  constructor
  · intro name hexpired
    rw [done.child_eq, cleaned_of_expired hexpired]
  · intro name data mode hfile hpacks
    have hnew : t.child? place (name ++ ".gz") = none := Option.isNone_iff_eq_none.1 hpacks.2
    rw [done.child_eq, cleaned_of_packs hpacks, cleaned_packed hpacks.1, hnew, hfile]
    exact ⟨rfl, _, _, rfl, undone data⟩
  · intro other hkept hunpacked
    by_cases hbelow : ∃ name, other = place ++ [name]
    · obtain ⟨name, rfl⟩ := hbelow
      have hsame : cleaned (packedFile pack) settings today (t.child? place) name =
          t.child? place name := by
        apply cleaned_eq
        · exact fun hthere hexpired => hkept name hthere hexpired rfl
        · exact fun hthere hpacks => (hunpacked name hthere hpacks).1 rfl
        · rintro base rfl hthere hpacks
          exact (hunpacked base hthere hpacks).2 rfl
      rw [← done.child_eq] at hsame
      exact hsame
    · exact done.elsewhere other (not_exists.1 hbelow)

/-- **A clean-up settles the fate of every file, in whatever order the files are listed.** It
succeeds if the system refuses no request and no path it needs is too long. -/
theorem runOrdered_settles_fates (o : Occasion) {unpack? : Bytes → Option Bytes}
    (undone : ∀ data, unpack? (o.pack data) = some data)
    (calendar : Date.inCalendar o.today.dayNumber = true)
    (representable : Date.inCalendar (firstKept settings o.today) = true)
    (listed : t.IsListed settings.directory place) (regular : IsRegular t place)
    (lists : Lists settings o place t) :
    (o.answers = [] → (∀ name, t.child? place name ≠ none → Fits settings o.today name) →
      ∃ report, (runOrdered o settings t).2 = .ok report) ∧
    ∀ report, (runOrdered o settings t).2 = .ok report →
      Fates unpack? settings o.today place t (runOrdered o settings t).1 ∧
      report.removed = (t.namesIn place).countP (fun name => Expired settings o.today name) ∧
      report.compressed =
        (t.namesIn place).countP (fun name => Packs settings o.today (t.child? place) name) := by
  constructor
  · intro hgranting hfits
    rcases runOrdered_cases hgranting calendar representable listed regular lists with
      ⟨t', report, hrun, -⟩ | ⟨-, name, hthere, hlong⟩
    · exact ⟨report, by rw [hrun]⟩
    · exact absurd (hfits name hthere) hlong
  · intro report hreport
    obtain ⟨hdone, -⟩ := cleaned_of_runOrdered calendar representable listed regular lists
      (Prod.ext rfl hreport : runOrdered o settings t = (_, .ok report))
    refine ⟨hdone.fates undone, ?_⟩
    rw [hdone.report_eq]
    exact ⟨rfl, rfl⟩

/-! ## Two directories -/

/-- A day in spring. -/
def sampleDay : Date :=
  ⟨2026, 3, 20⟩

/-- Logs are kept for a week and packed. -/
def sampleSettings : LogSettings :=
  { retentionDays := 7 }

/-- The log of the day before, a packed log that has expired, and another file. -/
def sampleLogs : FileTree where
  nodes := [(["logs"], .directory), (["logs", "tcode.2026-03-19.log"], .file [108] 0o644),
    (["logs", "tcode.2026-03-01.log.gz"], .file [1] 0o644),
      (["logs", "notes.txt"], .file [2] 0o644)]

theorem isListed_sample : sampleLogs.IsListed sampleSettings.directory ["logs"] := by
  refine ⟨rfl, rfl, ?_, ?_⟩
  · have hall : ∀ name ∈ sampleLogs.namesIn ["logs"], IsName name := by decide +kernel
    intro name hname
    exact hall name (mem_namesIn.2 hname)
  · simp [IsDistinct, sampleLogs]

/-- A directory is regular if all of its nodes are. -/
theorem isRegular_of_nodes
    (files : ∀ e ∈ t.nodes, e.1.dropLast = place → e.1 ≠ [] → e.2.IsFile) : IsRegular t place := by
  intro name node hnode
  rw [child?, node?, if_neg (by simp)] at hnode
  obtain ⟨before, after, hnodes, -⟩ := List.lookup_eq_some_iff.1 hnode
  apply files (place ++ [name], node)
  · rw [hnodes]
    exact List.mem_append_right _ List.mem_cons_self
  · simp
  · simp

theorem isRegular_sample : IsRegular sampleLogs ["logs"] := by
  apply isRegular_of_nodes
  intro e he
  simp only [sampleLogs, List.mem_cons, List.not_mem_nil, or_false] at he
  rcases he with rfl | rfl | rfl | rfl
  · simp
  all_goals exact fun _ _ => ⟨_, _, rfl⟩

/-- A listing that has the packed form made in the first turn, too. -/
def sampleOccasion : Occasion where
  today := sampleDay
  pack := Gzip.pack
  arrange _ :=
    ["tcode.2026-03-19.log", "notes.txt", "tcode.2026-03-19.log.gz", "tcode.2026-03-01.log.gz"]

theorem lists_sample : Lists sampleSettings sampleOccasion ["logs"] sampleLogs := by
  have hnext {s s' : State} {name : String} (h : step Gzip.pack sampleSettings.directory
      (choice sampleSettings sampleDay) s name = (s', .ok ())) :
      s' = (step Gzip.pack sampleSettings.directory (choice sampleSettings sampleDay) s name).1 :=
    (congrArg Prod.fst h).symm
  refine ⟨by decide +kernel, ?_, ?_⟩
  · have hall : ∀ name ∈ sampleLogs.namesIn ["logs"],
        name ∈ sampleOccasion.listing sampleLogs ["logs"] := by decide +kernel
    intro name hname
    exact hall name (mem_namesIn.2 hname)
  · refine ⟨by decide +kernel, fun s₁ h₁ => ?_⟩
    rw [hnext h₁]
    refine ⟨by decide +kernel, fun s₂ h₂ => ?_⟩
    rw [hnext h₂]
    refine ⟨by decide +kernel, fun s₃ h₃ => ?_⟩
    rw [hnext h₃]
    exact ⟨by decide +kernel, fun _ _ => trivial⟩

theorem fits_sample (day : Date) :
    ∀ name, sampleLogs.child? ["logs"] name ≠ none → Fits sampleSettings day name := by
  have hmoderate : sampleSettings.directory.utf8ByteSize + nameLimit + 1 < pathLimit := by
    decide
  have hall : ∀ name ∈ sampleLogs.namesIn ["logs"], isOverlong (name ++ ".gz") = false := by
    decide +kernel
  intro name hname
  have hshort := hall name (mem_namesIn.2 hname)
  exact ⟨fun _ => isShortPath_join hmoderate (isListed_sample.named name hname).short,
    fun _ => ⟨isShortPath_join hmoderate hshort, hshort⟩⟩

theorem runOrdered_settles_fates_sample :
    ∃ report t', runOrdered sampleOccasion sampleSettings sampleLogs = (t', .ok report) ∧
      report = { removed := 1, compressed := 1 } ∧
      Fates Gzip.unpack? sampleSettings sampleDay ["logs"] sampleLogs t' := by
  obtain ⟨hgoes, hfates⟩ := runOrdered_settles_fates sampleOccasion Gzip.unpack?_pack
    (by decide +kernel) (by decide +kernel) isListed_sample isRegular_sample lists_sample
  obtain ⟨report, hreport⟩ := hgoes rfl (fits_sample sampleDay)
  obtain ⟨hdone, hremoved, hcompressed⟩ := hfates report hreport
  refine ⟨report, _, Prod.ext rfl hreport, ?_, hdone⟩
  have hcounts : (sampleLogs.namesIn ["logs"]).countP
        (fun name => Expired sampleSettings sampleDay name) = 1 ∧
      (sampleLogs.namesIn ["logs"]).countP
        (fun name => Packs sampleSettings sampleDay (sampleLogs.child? ["logs"]) name) = 1 := by
    decide +kernel
  cases report
  exact CleanupReport.mk.injEq .. ▸ ⟨hremoved.trans hcounts.1, hcompressed.trans hcounts.2⟩

/-- A stem with which a log has the longest name that a directory can hold. -/
def longStem : String :=
  String.ofList (List.replicate 240 'a')

def longSettings : LogSettings :=
  { stem := longStem, retentionDays := 7 }

/-- A log with the longest name. -/
def longLogs : FileTree where
  nodes := [(["logs"], .directory), (["logs", longStem ++ ".2026-03-18.log"], .file [2] 0o644)]

/-- The day after that of the log. -/
def longDay : Date :=
  ⟨2026, 3, 19⟩

theorem utf8ByteSize_longStem : longStem.utf8ByteSize = 240 := by
  decide +kernel

theorem isName_long {ending : String} (unslashed : '/' ∉ ending.toList)
    (unended : '\x00' ∉ ending.toList) (size : ending.utf8ByteSize ≤ 15) :
    IsName (longStem ++ ending) := by
  have hstem : longStem.toList = List.replicate 240 'a' := String.toList_ofList
  have hlength : 240 ≤ (longStem ++ ending).toList.length := by
    rw [String.toList_append, hstem, List.length_append, List.length_replicate]
    exact Nat.le_add_right _ _
  refine ⟨?_, ?_, ?_, ?_, ?_, ?_⟩
  · intro hempty
    simp [hempty] at hlength
  · rw [String.toList_append, hstem, List.mem_append, List.mem_replicate]
    simpa using unslashed
  · rw [String.toList_append, hstem, List.mem_append, List.mem_replicate]
    simpa using unended
  · intro hdot
    simp [hdot] at hlength
  · intro hup
    simp [hup] at hlength
  · rw [isOverlong, String.utf8ByteSize_append, utf8ByteSize_longStem,
      decide_eq_false_iff_not, nameLimit]
    omega

theorem parse?_long : LogFile.parse? longSettings.stem (longStem ++ ".2026-03-18.log") =
    some (⟨2026, 3, 18⟩, false) := by
  refine LogFile.parse?_eq_some_iff.2
    ⟨"2026-03-18".toList, ?_, rfl, rfl⟩
  rw [String.toList_append]
  rfl

theorem namesIn_long : longLogs.namesIn ["logs"] = [longStem ++ ".2026-03-18.log"] :=
  rfl

theorem there_long : longLogs.child? ["logs"] (longStem ++ ".2026-03-18.log") ≠ none := by
  rw [← mem_namesIn, namesIn_long]
  exact List.mem_cons_self

theorem isListed_long : longLogs.IsListed longSettings.directory ["logs"] := by
  refine ⟨rfl, rfl, ?_, by simp [IsDistinct, longLogs]⟩
  intro name hname
  rw [← mem_namesIn, namesIn_long, List.mem_singleton] at hname
  rw [hname]
  exact isName_long (by decide) (by decide) (by decide)

theorem isRegular_long : IsRegular longLogs ["logs"] := by
  apply isRegular_of_nodes
  intro e he
  simp only [longLogs, List.mem_cons, List.not_mem_nil, or_false] at he
  rcases he with rfl | rfl
  · simp
  · exact fun _ _ => ⟨_, _, rfl⟩

theorem historic_long : Historic longSettings longDay (longStem ++ ".2026-03-18.log") := by
  rw [historic_iff parse?_long]
  decide

/-- Its packed form has no name. -/
theorem overlong_packed : isOverlong (longStem ++ ".2026-03-18.log" ++ ".gz") = true := by
  rw [isOverlong, String.utf8ByteSize_append, String.utf8ByteSize_append, utf8ByteSize_longStem]
  rfl

/-- An occasion on which nothing is refused and the entries are listed by name. -/
def plainOccasion (day : Date) : Occasion where
  today := day
  pack := Gzip.pack

theorem lists_plain (listed : t.IsListed settings.directory place) (regular : IsRegular t place)
    (day : Date) : Lists settings (plainOccasion day) place t :=
  lists_of_perm listed regular (List.mergeSort_perm _ _)

/-- A log whose name has no room for `.gz` ends the clean-up, though no request is refused. -/
theorem clean_up_fails_on_longest_name :
    (∀ data, Gzip.unpack? ((plainOccasion longDay).pack data) = some data) ∧
      Date.inCalendar longDay.dayNumber = true ∧
      Date.inCalendar (firstKept longSettings longDay) = true ∧
      longLogs.IsListed longSettings.directory ["logs"] ∧ IsRegular longLogs ["logs"] ∧
      Lists longSettings (plainOccasion longDay) ["logs"] longLogs ∧
      (plainOccasion longDay).answers = [] ∧
      ∀ report, (runOrdered (plainOccasion longDay) longSettings longLogs).2 ≠ .ok report := by
  have hcalendar : Date.inCalendar longDay.dayNumber = true := by decide +kernel
  have hkept : Date.inCalendar (firstKept longSettings longDay) = true := by decide +kernel
  have hlists := lists_plain isListed_long isRegular_long longDay
  refine ⟨Gzip.unpack?_pack, hcalendar, hkept, isListed_long, isRegular_long, hlists, rfl, ?_⟩
  intro report hreport
  rcases runOrdered_cases (o := plainOccasion longDay) rfl hcalendar hkept isListed_long
      isRegular_long hlists with
    ⟨t', report', -, -, hfits⟩ | ⟨⟨t', e, hrun⟩, -⟩
  · have hshort := ((hfits _ there_long).historic historic_long).2
    cases hshort.symm.trans overlong_packed
  · rw [hrun] at hreport
    cases hreport

end Cleanup

end Transcode
