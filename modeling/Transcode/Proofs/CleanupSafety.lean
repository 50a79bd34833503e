import Transcode.Proofs.LogCleanup
/-!
# Safety of an interrupted clean-up

A clean-up can fail at any request: the system refuses it, a path is too long, or a directory has
the name of a log. `Cleanup.Acts` is the relation of all effects of a turn, successful or not. No
turn removes a log before its packed form is complete, and none touches a file of another name.
Hence a log within the retention is at any time there or replaced by a packed form made for it
(`Cleanup.Keeps`). The listing may have any order and any repetitions
(`Cleanup.runOrdered_keeps_retained`).
-/

set_option autoImplicit false

namespace Transcode

namespace Cleanup

open FileTree

variable {pack : Bytes → Bytes} {settings : LogSettings} {today : Date} {name path : String}
  {place : Location} {t t' u u' : FileTree} {s s' : State} {node : Node}
  {result : Except CleanupError Unit} {front names : List String} {o : Occasion}

/-! ## The effects of a turn -/

/-- All effects that the turn of an entry can have on the file tree, with the result of the turn. -/
inductive Acts (pack : Bytes → Bytes) (settings : LogSettings) (today : Date) (place : Location)
    (u : FileTree) (name : String) : FileTree → Except CleanupError Unit → Prop where
  /-- Nothing is changed. -/
  | leaves (result : Except CleanupError Unit) : Acts pack settings today place u name u result
  /-- An expired log is removed. -/
  | removes (expired : Expired settings today name)
      (file : u.child? place name ≠ some .directory) :
      Acts pack settings today place u name (u.drop (place ++ [name])) (.ok ())
  /-- A log is replaced by its packed form, where nothing was. -/
  | packs {node : Node} (historic : Historic settings today name) (named : IsName (name ++ ".gz"))
      (free : u.child? place (name ++ ".gz") = none)
      (there : u.child? place name = some node) (file : node ≠ .directory) :
      Acts pack settings today place u name
        ((u.put (place ++ [name ++ ".gz"]) (packedFile pack node)).drop (place ++ [name])) (.ok ())
  /-- A packed file is begun where nothing was, and then the clean-up fails. -/
  | begins (bytes : Bytes) (historic : Historic settings today name)
      (named : IsName (name ++ ".gz")) (free : u.child? place (name ++ ".gz") = none)
      (e : CleanupError) :
      Acts pack settings today place u name
        (u.put (place ++ [name ++ ".gz"]) (.file bytes Node.newMode)) (.error e)

/-- A path below a directory that names something names the entry. -/
theorem eq_of_names_join {other : Location} (listed : t.IsListed settings.directory place)
    (plain : name.toList ≠ [] ∧ '/' ∉ name.toList) (named : isOverlong name = false → IsName name)
    (names : t.Names (Path.join settings.directory name) other) :
    IsName name ∧ other = place ++ [name] := by
  obtain ⟨hpath, hshort⟩ := names.short_join listed.located plain.1 plain.2
  have hnames := names_join listed.located listed.there (named hshort) hpath
  exact ⟨named hshort, Except.ok.inj (names.locate_eq.symm.trans hnames.locate_eq)⟩

/-- A request by itself changes no file. -/
theorem State.tree_of_attempt {α : Type} {request answer : Except IoError α}
    (h : s.attempt request = (s', answer)) : s'.tree = s.tree := by
  unfold State.attempt at h
  split at h
  · next hasked =>
      cases h
      exact State.tree_eq_of_granted (State.granted_of_ask hasked)
  · next hasked =>
      cases h
      exact State.tree_eq_of_granted (State.granted_of_ask hasked)

theorem acts_remove (listed : s.tree.IsListed settings.directory place) (named : IsName name)
    (expired : Expired settings today name)
    (h : remove s (Path.join settings.directory name) = (s', result)) :
    Acts pack settings today place s.tree name s'.tree result := by
  unfold remove at h
  split at h
  · next hattempt =>
      cases h
      rw [State.tree_of_attempt hattempt]
      exact .leaves _
  · next hattempt =>
      cases h
      obtain ⟨other, hnames, hfile, rfl⟩ :=
        exists_drop_of_removeFile (State.granted_of_attempt hattempt).2
      obtain ⟨-, rfl⟩ :=
        eq_of_names_join listed ⟨named.nonempty, named.unslashed⟩ (fun _ => named) hnames
      exact .removes expired hfile

/-- Filling appends some bytes; if it succeeds, these are the packed contents of a file. -/
theorem fill_cases {packed : String} {filled : Except IoError Unit}
    (h : fill pack s packed node = (s', filled)) :
    ∃ bytes, s'.tree = s.tree.append packed bytes ∧
      (filled = .ok () → node ≠ .directory ∧ bytes = pack node.data) := by
  unfold fill at h
  split at h
  · next s₁ refusal hasked =>
      cases h
      have htree := State.tree_eq_of_granted (State.granted_of_ask hasked)
      exact ⟨refusal.left, by rw [← htree]; rfl, by simp⟩
  next s₁ hasked =>
  have htree := State.tree_eq_of_granted (State.granted_of_ask hasked)
  split at h
  · cases h
    exact ⟨pack [], by rw [← htree]; rfl, by simp⟩
  next hfile =>
  split at h
  · next s₂ refusal hasked' =>
      cases h
      have htree' := State.tree_eq_of_granted (State.granted_of_ask hasked')
      exact ⟨refusal.left, by rw [← htree, ← htree']; rfl, by simp⟩
  · next s₂ hasked' =>
      cases h
      have htree' := State.tree_eq_of_granted (State.granted_of_ask hasked')
      refine ⟨pack node.data, by rw [← htree, ← htree']; rfl, fun _ => ⟨?_, rfl⟩⟩
      rintro rfl
      exact hfile rfl

/-- Packing changes nothing, or makes a packed file where nothing was. After that it fails, or the
packed file is complete and the file that was read is removed. -/
theorem compress_cases (h : compress pack s path = (s', result)) :
    s'.tree = s.tree ∨ ∃ packed, s.tree.Names (path ++ ".gz") packed ∧ s.tree.node? packed = none ∧
      ((∃ bytes e, result = .error e ∧ s'.tree = s.tree.put packed (.file bytes Node.newMode)) ∨
        ∃ node other, (s.tree.put packed (packedFile pack node)).Names path other ∧
          s.tree.node? other = some node ∧ node ≠ .directory ∧ result = .ok () ∧
          s'.tree = (s.tree.put packed (packedFile pack node)).drop other) := by
  unfold compress at h
  simp only at h
  split at h
  · cases h
    exact .inl rfl
  next habsent =>
  split at h
  · next hopened =>
      cases h
      exact .inl (State.tree_of_attempt hopened)
  next s₁ node hopened =>
  have htree := State.tree_of_attempt hopened
  have hstat := (State.granted_of_attempt hopened).2
  split at h
  · next hcreated =>
      cases h
      exact .inl ((State.tree_of_attempt hcreated).trans htree)
  next s₂ tree hcreated =>
  -- from here on the packed file is there
  have hcreate := (State.granted_of_attempt hcreated).2
  rw [htree] at hcreate
  obtain ⟨packed, _, hnames, -, -⟩ := exists_put_of_create hcreate
  have hfree : s.tree.node? packed = none := by simpa [pathExists_of_names hnames] using habsent
  cases hcreate.symm.trans (create_of_names hnames hfree)
  refine .inr ⟨packed, hnames, hfree, ?_⟩
  rcases hfill : fill pack
      { s₂ with tree := s.tree.put packed (.file [] Node.newMode) } (path ++ ".gz") node with
    ⟨s₃, filled⟩
  obtain ⟨bytes, hbytes, hcomplete⟩ := fill_cases hfill
  rw [append_put_of_names hnames hfree] at hbytes
  rw [hfill] at h
  cases filled with
  | error e =>
      cases h
      exact .inl ⟨bytes, _, rfl, hbytes⟩
  | ok _ =>
      obtain ⟨hfile, rfl⟩ := hcomplete rfl
      simp only at h
      split at h
      · next hremoved =>
          cases h
          exact .inl ⟨_, _, rfl, (State.tree_of_attempt hremoved).trans hbytes⟩
      · next hremoved =>
          cases h
          have hremove := (State.granted_of_attempt hremoved).2
          rw [hbytes] at hremove
          obtain ⟨other, hold, -, rfl⟩ := exists_drop_of_removeFile hremove
          have same : SameDirectories s.tree (s.tree.put packed (packedFile pack node)) :=
            sameDirectories_put hnames.ne_nil (by simp [hfree]) (by simp [packedFile])
          -- the packed file moves no path, so what is removed is what was read
          obtain ⟨read, hread, hnode⟩ := stat_eq_ok_iff.1 hstat
          cases hread.symm.trans (same.symm.names hold).locate_eq
          exact .inr ⟨node, other, hold, hnode, hfile, rfl, rfl⟩

theorem acts_compress (listed : s.tree.IsListed settings.directory place) (named : IsName name)
    (historic : Historic settings today name)
    (h : compress pack s (Path.join settings.directory name) = (s', result)) :
    Acts pack settings today place s.tree name s'.tree result := by
  rcases compress_cases h with htree | ⟨packed, hnames, hfree, hmade⟩
  · rw [htree]
    exact .leaves _
  · rw [← Path.join_append ".gz" named.nonempty] at hnames
    obtain ⟨hnonempty, hunslashed, -⟩ := packed_plain named
    obtain ⟨hpacked, rfl⟩ :=
      eq_of_names_join listed ⟨hnonempty, hunslashed⟩ (isName_packed named) hnames
    rcases hmade with ⟨bytes, e, rfl, htree⟩ | ⟨node, other, hold, hnode, hfile, rfl, htree⟩
    · rw [htree]
      exact .begins bytes historic hpacked hfree e
    · have hlisted : (s.tree.put (place ++ [name ++ ".gz"]) (packedFile pack node)).IsListed
          settings.directory place :=
        listed.put hpacked (by simp [child?, hfree]) _ _
      obtain ⟨-, rfl⟩ :=
        eq_of_names_join hlisted ⟨named.nonempty, named.unslashed⟩ (fun _ => named) hold
      rw [htree]
      exact .packs historic hpacked hfree hnode hfile

/-- The effect of a turn is one of these. -/
theorem acts_of_step (listed : s.tree.IsListed settings.directory place) (named : IsName name)
    (h : step pack settings.directory (choice settings today) s name = (s', result)) :
    Acts pack settings today place s.tree name s'.tree result := by
  unfold step at h
  split at h
  · next hread =>
      cases h
      rw [State.tree_of_attempt hread]
      exact .leaves _
  next s₁ name' hread =>
  cases (State.granted_of_attempt hread).2
  have htree := State.tree_of_attempt hread
  rw [← htree] at listed ⊢
  rw [choice_eq] at h
  by_cases hexpired : Expired settings today name
  · rw [if_pos hexpired] at h
    exact acts_remove listed named hexpired h
  · rw [if_neg hexpired] at h
    by_cases historic : Historic settings today name
    · rw [if_pos historic] at h
      exact acts_compress listed named historic h
    · rw [if_neg historic] at h
      cases h
      exact .leaves _

/-! ## The invariant of a turn -/

theorem Acts.listed (acts : Acts pack settings today place u name u' result)
    (listed : u.IsListed settings.directory place) :
    u'.IsListed settings.directory place := by
  cases acts with
  | leaves => exact listed
  | removes _ file => exact listed.drop file
  | packs _ named free there file =>
      refine (listed.put named (by simp [free]) _ _).drop ?_
      rw [child?_put, if_neg (packed_ne name).symm, there]
      simpa using file
  | begins bytes _ named free => exact listed.put named (by simp [free]) _ _

/-- No directory is made or removed. -/
theorem Acts.sameDirectories (acts : Acts pack settings today place u name u' result) :
    SameDirectories u u' := by
  have hput (bytes : Bytes) (free : u.child? place (name ++ ".gz") = none) :
      SameDirectories u (u.put (place ++ [name ++ ".gz"]) (.file bytes Node.newMode)) :=
    sameDirectories_put (by simp) (by rw [← child?, free]; simp) (by simp)
  cases acts with
  | leaves => exact .refl _
  | removes _ file => exact sameDirectories_drop (by simp) file
  | @packs node _ _ free there file =>
      refine (hput (pack node.data) free).trans (sameDirectories_drop (by simp) ?_)
      rw [← child?, child?_put, if_neg (packed_ne name).symm, there]
      simpa using file
  | begins bytes _ _ free => exact hput bytes free

/-- The locations that the turn of an entry can change: that of a log that is removed or packed, and
that of the packed form of one that is packed. -/
def Touches (settings : LogSettings) (today : Date) (place : Location) (name : String)
    (other : Location) : Prop :=
  (Expired settings today name ∨ Historic settings today name) ∧ other = place ++ [name] ∨
    Historic settings today name ∧ other = place ++ [name ++ ".gz"]

theorem Acts.elsewhere {other : Location} (acts : Acts pack settings today place u name u' result)
    (untouched : ¬ Touches settings today place name other) : u'.node? other = u.node? other := by
  obtain ⟨hentry, hpacked⟩ := not_or.1 untouched
  cases acts with
  | leaves => rfl
  | removes expired => rw [node?_drop _ (by simp), if_neg fun h => hentry ⟨.inl expired, h⟩]
  | packs historic =>
      rw [node?_drop _ (by simp), if_neg fun h => hentry ⟨.inr historic, h⟩,
        node?_put _ (by simp), if_neg fun h => hpacked ⟨historic, h⟩]
  | begins bytes historic => rw [node?_put _ (by simp), if_neg fun h => hpacked ⟨historic, h⟩]

/-- A turn that fails leaves behind at most a packed file, where nothing was. -/
theorem Acts.node?_of_failed {e : CleanupError}
    (acts : Acts pack settings today place u name u' (.error e)) (other : Location) :
    u'.node? other = u.node? other ∨
      other = place ++ [name ++ ".gz"] ∧ u.node? other = none := by
  cases acts with
  | leaves => exact .inl rfl
  | begins bytes _ _ free =>
      rw [node?_put _ (by simp)]
      split
      next hother =>
        subst hother
        exact .inr ⟨rfl, free⟩
      next => exact .inl rfl

/-- Survival of a file from `t` to `t'`: it is still there, or its packed form was made and stands
in its place. -/
def Survives (pack : Bytes → Bytes) (settings : LogSettings) (today : Date) (place : Location)
    (t t' : FileTree) (name : String) (node : Node) : Prop :=
  t'.child? place name = some node ∨
    Historic settings today name ∧ t'.child? place name = none ∧
      t.child? place (name ++ ".gz") = none ∧
      t'.child? place (name ++ ".gz") = some (packedFile pack node)

section Survives

variable {other : String}

/-- A node put at a vacant location preserves survival. -/
theorem Survives.put (survives : Survives pack settings today place t t' other node)
    (free : t'.child? place (name ++ ".gz") = none) (packed : Node) :
    Survives pack settings today place t (t'.put (place ++ [name ++ ".gz"]) packed) other node := by
  simp only [Survives, child?_put]
  rcases survives with hthere | ⟨historic, hgone, hnew, hpacked⟩
  · have hother : other ≠ name ++ ".gz" := by
      rintro rfl
      cases free.symm.trans hthere
    rw [if_neg hother]
    exact .inl hthere
  · have hother : other ≠ name ++ ".gz" := by
      rintro rfl
      exact not_historic_packed historic
    have hname : other ++ ".gz" ≠ name ++ ".gz" := by
      intro hsame
      rw [hsame] at hpacked
      cases free.symm.trans hpacked
    rw [if_neg hother, if_neg hname]
    exact .inr ⟨historic, hgone, hnew, hpacked⟩

/-- Another file may go, if it is not the packed form. -/
theorem Survives.drop (survives : Survives pack settings today place t t' other node)
    (entry : other ≠ name)
    (packed : Historic settings today other → other ++ ".gz" ≠ name) :
    Survives pack settings today place t (t'.drop (place ++ [name])) other node := by
  simp only [Survives, child?_drop, if_neg entry]
  rcases survives with hthere | ⟨historic, hgone, hnew, hpacked⟩
  · exact .inl hthere
  · rw [if_neg (packed historic)]
    exact .inr ⟨historic, hgone, hnew, hpacked⟩

end Survives

/-- Invariant of a clean-up in which some entries had their turns, the last one maybe with a
failure. -/
structure Keeps (pack : Bytes → Bytes) (settings : LogSettings) (today : Date) (place : Location)
    (t : FileTree) (front : List String) (u : FileTree) : Prop where
  listed : u.IsListed settings.directory place
  directories : SameDirectories t u
  survives : ∀ name node, t.child? place name = some node → node ≠ .directory →
    ¬ Expired settings today name → Survives pack settings today place t u name node
  elsewhere : ∀ other, (∀ name ∈ front, ¬ Touches settings today place name other) →
    u.node? other = t.node? other

theorem Keeps.start (listed : t.IsListed settings.directory place) :
    Keeps pack settings today place t [] t :=
  ⟨listed, .refl t, fun _ _ there _ _ => .inl there, fun _ _ => rfl⟩

/-- Where the packed form of a log that is packed is not there, it was not there at the start. -/
theorem Keeps.free (keeps : Keeps pack settings today place t front u)
    (historic : Historic settings today name) (free : u.child? place (name ++ ".gz") = none) :
    t.child? place (name ++ ".gz") = none := by
  apply Decidable.byContradiction
  intro hthere
  obtain ⟨node, hnode⟩ := Option.ne_none_iff_exists'.1 hthere
  by_cases hdirectory : node = .directory
  · subst hdirectory
    cases free.symm.trans ((keeps.directories.directory_iff _).2 hnode)
  · rcases keeps.survives _ node hnode hdirectory historic.not_expired_packed with hkept | hpacked
    · cases free.symm.trans hkept
    · exact not_historic_packed hpacked.1

/-- A file that survived up to a turn survives it. -/
theorem Keeps.survives_turn {other : String} (keeps : Keeps pack settings today place t front u)
    (acts : Acts pack settings today place u name u' result) (kept : ¬ Expired settings today other)
    (survives : Survives pack settings today place t u other node) :
    Survives pack settings today place t u' other node := by
  cases acts with
  | leaves => exact survives
  | removes expired =>
      apply survives.drop
      · rintro rfl
        exact kept expired
      · -- the packed form of a log within the retention does not expire before it
        rintro historic rfl
        exact historic.not_expired_packed expired
  | @packs packed historic _ free there _ =>
      by_cases hother : other = name
      · -- the log goes now, and its packed form has just been made
        subst hother
        rcases survives with hthere | ⟨-, hgone, -⟩
        · cases there.symm.trans hthere
          refine .inr ⟨historic, ?_, keeps.free historic free, ?_⟩
          · rw [child?_drop, if_pos rfl]
          · rw [child?_drop, if_neg (packed_ne other), child?_put, if_pos rfl]
        · cases hgone.symm.trans there
      · apply (survives.put free _).drop hother
        rintro - rfl
        exact not_historic_packed historic
  | begins bytes _ _ free => exact survives.put free _

/-- A turn preserves the invariant, whether it succeeds or fails. -/
theorem Keeps.turn (keeps : Keeps pack settings today place t front u)
    (acts : Acts pack settings today place u name u' result) :
    Keeps pack settings today place t (front ++ [name]) u' := by
  refine ⟨acts.listed keeps.listed, keeps.directories.trans acts.sameDirectories, ?_, ?_⟩
  · intro other node hthere hfile hkept
    exact keeps.survives_turn acts hkept (keeps.survives other node hthere hfile hkept)
  · intro other huntouched
    rw [List.forall_mem_append, List.forall_mem_singleton] at huntouched
    rw [acts.elsewhere huntouched.2, keeps.elsewhere other huntouched.1]

/-! ## The whole clean-up -/

/-- The turns succeed to the end, or there is a first one that fails, after which nothing is done.
-/
theorem Keeps.steps (keeps : Keeps pack settings today place t front s.tree)
    (named : ∀ name ∈ names, IsName name) :
    (∃ s', Cleanup.steps pack settings.directory (choice settings today) s names = (s', .ok ()) ∧
        Keeps pack settings today place t (front ++ names) s'.tree) ∨
    ∃ done name rest s₁ s₂ e, names = done ++ name :: rest ∧
        Cleanup.steps pack settings.directory (choice settings today) s done = (s₁, .ok ()) ∧
        Keeps pack settings today place t (front ++ done) s₁.tree ∧
        Acts pack settings today place s₁.tree name s₂.tree (.error e) ∧
        Cleanup.steps pack settings.directory (choice settings today) s names = (s₂, .error e) := by
  -- the entries that had their turns stand in `front`, and the state is known from them
  induction names generalizing front s with
  | nil => exact .inl ⟨s, rfl, by rwa [List.append_nil]⟩
  | cons name rest ih =>
      obtain ⟨hname, hrest⟩ := List.forall_mem_cons.1 named
      rcases hstep : step pack settings.directory (choice settings today) s name with ⟨s', e | _⟩
      · have hacts := acts_of_step keeps.listed hname hstep
        refine .inr ⟨[], name, rest, s, s', e, rfl, rfl, by rwa [List.append_nil], hacts, ?_⟩
        simp only [Cleanup.steps, hstep]
      · have hkeeps := keeps.turn (acts_of_step keeps.listed hname hstep)
        have hcons (later : List String) :
            Cleanup.steps pack settings.directory (choice settings today) s (name :: later) =
              Cleanup.steps pack settings.directory (choice settings today) s' later := by
          simp only [Cleanup.steps, hstep]
        rcases ih hkeeps hrest with ⟨s'', hsteps, hkeeps'⟩ |
          ⟨done, other, rest', s₁, s₂, e, rfl, hdone, hkeeps', hacts, hsteps⟩
        · rw [← List.append_cons] at hkeeps'
          exact .inl ⟨s'', (hcons rest).trans hsteps, hkeeps'⟩
        · rw [← List.append_cons] at hkeeps'
          exact .inr ⟨name :: done, other, rest', s₁, s₂, e, rfl, (hcons done).trans hdone, hkeeps',
            hacts, (hcons _).trans hsteps⟩

/-- The first day to be kept, where it is in the calendar. -/
theorem eq_of_cutoff? {cutoff : Int} (found : cutoff? settings today = some cutoff) :
    cutoff = firstKept settings today := by
  rw [cutoff?] at found
  split at found
  · exact (Option.some.inj found).symm
  · cases found

/-- The point where a clean-up ended: `done` are the entries whose turns went well, `u` is the tree
they led to, and `rest` begins with the entry that failed, if one did. -/
structure Ended (o : Occasion) (settings : LogSettings) (place : Location) (t : FileTree)
    (done rest : List String) (u u' : FileTree) : Prop where
  split : o.listing t place = done ++ rest
  reached : ∃ s, Cleanup.steps o.pack settings.directory (choice settings o.today)
    { tree := t } done =
    (s, .ok ()) ∧ s.tree = u
  keeps : Keeps o.pack settings o.today place t done u
  last : u' = u ∨ ∃ name e, rest.head? = some name ∧
    Acts o.pack settings o.today place u name u' (.error e)

/-- A clean-up ends somewhere in its listing. -/
theorem exists_ended {cutoff : Int} (representable : cutoff? settings o.today = some cutoff)
    (listed : t.IsListed settings.directory place)
    (named : ∀ name ∈ o.listing t place, IsName name) :
    ∃ done rest u, Ended o settings place t done rest u (runOrdered o settings t).1 := by
  rw [runOrdered, listed.pathExists, if_pos rfl, representable]
  obtain rfl := eq_of_cutoff? representable
  have hchoice : action settings o.today (firstKept settings o.today) =
      choice settings o.today := rfl
  have hgranted : State.granted { tree := t, answers := o.answers } = { tree := t } := rfl
  simp only [sweep, listed.list_eq, hchoice]
  split
  · next s e hlisted =>
      have htree : s.tree = t := State.tree_of_attempt hlisted
      exact ⟨[], o.listing t place, t, rfl, ⟨_, rfl, rfl⟩, .start listed, .inl htree⟩
  next s names hlisted =>
  cases (State.granted_of_attempt hlisted).2
  have htree : s.tree = t := State.tree_of_attempt hlisted
  have hs := (State.granted_of_attempt hlisted).1.trans hgranted
  have hstart : Keeps o.pack settings o.today place t [] s.tree := by
    rw [htree]
    exact .start listed
  rcases hstart.steps named with ⟨s', hsteps, hkeeps⟩ |
    ⟨done, name, rest, s₁, s₂, e, hsplit, hdone, hkeeps, hacts, hsteps⟩
  · have hgoes := steps_granted hsteps
    rw [hs] at hgoes
    have hsplit : o.listing t place = o.listing t place ++ [] := (List.append_nil _).symm
    have hsteps' : Cleanup.steps o.pack settings.directory (choice settings o.today) s
        (o.arrange ((t.namesIn place).mergeSort fun a b => a ≤ b)) = (s', .ok ()) := hsteps
    rw [hsteps']
    simp only
    refine ⟨_, [], s'.tree, hsplit, ⟨_, hgoes, rfl⟩, hkeeps, .inl ?_⟩
    split
    · next hended => exact State.tree_of_attempt hended
    · next hended => exact State.tree_of_attempt hended
  · have hgoes := steps_granted hdone
    rw [hs] at hgoes
    have hsteps' : Cleanup.steps o.pack settings.directory (choice settings o.today) s
        (o.arrange ((t.namesIn place).mergeSort fun a b => a ≤ b)) = (s₂, .error e) := hsteps
    rw [hsteps']
    exact ⟨done, name :: rest, s₁.tree, hsplit, ⟨_, hgoes, rfl⟩, hkeeps, .inr ⟨name, e, rfl, hacts⟩⟩

/-- The invariant holds at the end of every clean-up, successful or not. -/
theorem exists_keeps {cutoff : Int} (representable : cutoff? settings o.today = some cutoff)
    (listed : t.IsListed settings.directory place)
    (named : ∀ name ∈ o.listing t place, IsName name) :
    ∃ front, Keeps o.pack settings o.today place t front (runOrdered o settings t).1 := by
  obtain ⟨done, rest, u, hended⟩ := exists_ended representable listed named
  rcases hended.last with hsame | ⟨name, e, -, hacts⟩
  · exact ⟨done, hsame ▸ hended.keeps⟩
  · exact ⟨done ++ [name], hended.keeps.turn hacts⟩

/-- **A clean-up loses no log within the retention, whichever request fails.** Each file that is no
log, or one of a day that is kept, is still there or replaced by a packed form made for it. No
directory is removed. A clean-up that fails has handled the entries of an initial part of its
listing, and for the entry after these it has at most begun a packed file where nothing was. -/
theorem runOrdered_keeps_retained (o : Occasion) {unpack? : Bytes → Option Bytes}
    (undone : ∀ data, unpack? (o.pack data) = some data) {cutoff : Int}
    (representable : cutoff? settings o.today = some cutoff)
    (listed : t.IsListed settings.directory place)
    (named : ∀ name ∈ o.listing t place, IsName name) :
    (∀ name data mode, t.child? place name = some (.file data mode) →
      (∀ log ∈ LogFile.parse? settings.stem name, cutoff ≤ log.1.dayNumber) →
      (runOrdered o settings t).1.child? place name = some (.file data mode) ∨
        (runOrdered o settings t).1.child? place name = none ∧
        t.child? place (name ++ ".gz") = none ∧
        ∃ bytes mode', (runOrdered o settings t).1.child? place (name ++ ".gz") =
          some (.file bytes mode') ∧ unpack? bytes = some data) ∧
    (∀ other, t.node? other = some .directory →
      (runOrdered o settings t).1.node? other = some .directory) ∧
    ∀ e, (runOrdered o settings t).2 = .error e →
      ∃ done rest before, o.listing t place = done ++ rest ∧
        Cleanup.steps o.pack settings.directory (action settings o.today cutoff)
          { tree := t } done =
          (before, .ok ()) ∧
        (∀ other, (∀ earlier ∈ done, ¬ Touches settings o.today place earlier other) →
          before.tree.node? other = t.node? other) ∧
        ∀ other, (runOrdered o settings t).1.node? other = before.tree.node? other ∨
          ∃ name, rest.head? = some name ∧ other = place ++ [name ++ ".gz"] ∧
            before.tree.node? other = none := by
  obtain ⟨front, hkeeps⟩ := exists_keeps representable listed named
  refine ⟨?_, ?_, ?_⟩
  · intro name data mode hfile hretained
    have hkept : ¬ Expired settings o.today name := by
      rintro ⟨log, hlog, hday⟩
      rw [← eq_of_cutoff? representable] at hday
      exact Int.not_lt.2 (hretained log hlog) hday
    rcases hkeeps.survives name _ hfile (by simp) hkept with hthere | ⟨-, hgone, hnew, hpacked⟩
    · exact .inl hthere
    · exact .inr ⟨hgone, hnew, _, _, hpacked, undone data⟩
  · intro other hdirectory
    exact (hkeeps.directories.directory_iff other).2 hdirectory
  · intro e _
    obtain ⟨done, rest, u, hended⟩ := exists_ended representable listed named
    obtain ⟨before, hsteps, rfl⟩ := hended.reached
    obtain rfl := eq_of_cutoff? representable
    refine ⟨done, rest, before, hended.split, hsteps, hended.keeps.elsewhere, fun other => ?_⟩
    rcases hended.last with hsame | ⟨name, e, hname, hacts⟩
    · exact .inl (by rw [hsame])
    · rcases hacts.node?_of_failed other with hsame | ⟨hother, hfree⟩
      · exact .inl hsame
      · exact .inr ⟨name, hname, hother, hfree⟩

/-- Two logs, a directory with the name of a log, and another file. -/
def mixedLogs : FileTree where
  nodes := [(["logs"], .directory), (["logs", "tcode.2026-03-17.log"], .directory),
    (["logs", "tcode.2026-03-18.log"], .file [108] 0o644),
    (["logs", "tcode.2026-03-19.log"], .file [109] 0o644), (["logs", "notes.txt"], .file [2] 0o644)]

theorem isListed_mixed : mixedLogs.IsListed sampleSettings.directory ["logs"] := by
  refine ⟨rfl, rfl, ?_, ?_⟩
  · have hall : ∀ name ∈ mixedLogs.namesIn ["logs"], IsName name := by decide +kernel
    intro name hname
    exact hall name (mem_namesIn.2 hname)
  · unfold IsDistinct
    decide +kernel

/-- The disk is full when the packing of the second log is to be finished: the twelfth request. -/
def crowdedOccasion : Occasion where
  today := sampleDay
  pack := Gzip.pack
  arrange _ :=
    ["tcode.2026-03-18.log", "tcode.2026-03-19.log", "tcode.2026-03-17.log", "notes.txt"]
  answers := List.replicate 11 none ++
    [some { error := .other "No space left on device (os error 28)", left := [0x1F] }]

/-- The first log is packed; the second one stays beside a packed file that is cut short. -/
theorem runOrdered_keeps_retained_mixed :
    ∃ t' e, runOrdered crowdedOccasion sampleSettings mixedLogs = (t', .error e) ∧
      (∃ bytes mode, t'.child? ["logs"] "tcode.2026-03-18.log.gz" = some (.file bytes mode) ∧
        Gzip.unpack? bytes = some [108]) ∧
      t'.child? ["logs"] "tcode.2026-03-19.log" = some (.file [109] 0o644) ∧
      (t'.child? ["logs"] "tcode.2026-03-19.log.gz").map Node.data = some [0x1F] ∧
      t'.node? ["logs", "tcode.2026-03-17.log"] = some .directory ∧
      ∃ done rest, crowdedOccasion.listing mixedLogs ["logs"] = done ++ rest ∧
        ∀ other, (∀ earlier ∈ done, ¬ Touches sampleSettings sampleDay ["logs"] earlier other) →
          (∀ name, rest.head? = some name → other ≠ ["logs", name ++ ".gz"]) →
          t'.node? other = mixedLogs.node? other := by
  have hnames : ∀ name ∈ crowdedOccasion.listing mixedLogs ["logs"], IsName name := by
    decide +kernel
  have hends : ((runOrdered crowdedOccasion sampleSettings mixedLogs).1.child? ["logs"]
        "tcode.2026-03-18.log").isNone = true ∧
      ((runOrdered crowdedOccasion sampleSettings mixedLogs).1.child? ["logs"]
        "tcode.2026-03-19.log").isNone = false ∧
      ((runOrdered crowdedOccasion sampleSettings mixedLogs).1.child? ["logs"]
        "tcode.2026-03-19.log.gz").map Node.data = some [0x1F] ∧
      (runOrdered crowdedOccasion sampleSettings mixedLogs).2.isOk = false := by
    decide +kernel
  have hretained : ∀ name ∈ ["tcode.2026-03-18.log", "tcode.2026-03-19.log"],
      ∀ log ∈ LogFile.parse? sampleSettings.stem name,
        firstKept sampleSettings sampleDay ≤ log.1.dayNumber := by
    decide +kernel
  have hcutoff : cutoff? sampleSettings crowdedOccasion.today =
      some (firstKept sampleSettings sampleDay) :=
    cutoff?_eq (by decide +kernel) (by decide +kernel)
  obtain ⟨hkept, hdirectories, hfailed⟩ := runOrdered_keeps_retained crowdedOccasion
    Gzip.unpack?_pack hcutoff isListed_mixed hnames
  rcases hrun : runOrdered crowdedOccasion sampleSettings mixedLogs with ⟨t', e | report⟩
  · rw [hrun] at hkept hdirectories hfailed hends
    obtain ⟨hgone, hthere, hpart, -⟩ := hends
    refine ⟨t', e, rfl, ?_, ?_, hpart, hdirectories _ rfl, ?_⟩
    · rcases hkept "tcode.2026-03-18.log" [108] _ rfl (hretained _ (by simp)) with
        hfile | ⟨-, -, hpacked⟩
      · rw [hfile] at hgone
        cases hgone
      · exact hpacked
    · rcases hkept "tcode.2026-03-19.log" [109] _ rfl (hretained _ (by simp)) with
        hfile | ⟨hnone, -⟩
      · exact hfile
      · rw [hnone] at hthere
        cases hthere
    · obtain ⟨done, rest, before, hlisting, -, helsewhere, hlast⟩ := hfailed e rfl
      refine ⟨done, rest, hlisting, fun other huntouched hother => ?_⟩
      rcases hlast other with hsame | ⟨name, hname, hpacked, -⟩
      · exact hsame.trans (helsewhere other huntouched)
      · exact absurd hpacked (hother name hname)
  · rw [hrun] at hends
    cases hends.2.2.2

end Cleanup

end Transcode
