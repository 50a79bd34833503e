import Transcode.FileTree
/-!
# Paths and locations

The operations of a file tree, described by the locations they touch. `Names` relates a path that
ends in a name to its location, vacant or not; `SameDirectories` relates trees in which every path
leads to the same location. `WithFile` is a tree that differs from another one in one file.
-/

set_option autoImplicit false

namespace Transcode

namespace Path

theorem cut_ne_nil {α : Type} [DecidableEq α] (separator : α) (word : List α) :
    cut separator word ≠ [] := by
  cases word with
  | nil => simp [cut]
  | cons c cs =>
      rw [cut]
      split
      · simp
      · split <;> simp

/-- A suffix without a separator belongs to the last part. -/
theorem cut_append {α : Type} [DecidableEq α] {separator : α} {ending : List α}
    (plain : separator ∉ ending) (word : List α) :
    ∃ front last, cut separator word = front ++ [last] ∧
      cut separator (word ++ ending) = front ++ [last ++ ending] := by
  induction word with
  | nil =>
      refine ⟨[], [], rfl, ?_⟩
      induction ending with
      | nil => rfl
      | cons c cs ih =>
          obtain ⟨hc, hcs⟩ := not_or.1 (mt List.mem_cons.2 plain)
          have hrest : cut separator cs = [cs] := ih hcs
          simp [cut, Ne.symm hc, hrest]
  | cons c cs ih =>
      obtain ⟨front, last, hcut, happend⟩ := ih
      by_cases hc : c = separator
      · exact ⟨[] :: front, last, by simp [cut, hc, hcut], by simp [cut, hc, happend]⟩
      · cases front with
        | nil => exact ⟨[], c :: last, by simp [cut, hc, hcut], by simp [cut, hc, happend]⟩
        | cons w ws =>
            exact ⟨(c :: w) :: ws, last, by simp [cut, hc, hcut], by simp [cut, hc, happend]⟩

end Path

namespace FileTree

/-! ## Places -/

theorem lookup_filter_ne (nodes : List (Location × Node)) (place other : Location) :
    (nodes.filter fun e => e.1 ≠ place).lookup other =
      if other = place then none else nodes.lookup other := by
  induction nodes with
  | nil => simp
  | cons e rest ih =>
      obtain ⟨here, node⟩ := e
      by_cases hplace : here = place
      · subst hplace
        simp only [ne_eq, not_true_eq_false, decide_false, Bool.false_eq_true, not_false_eq_true,
          List.filter_cons_of_neg, ih, List.lookup_cons]
        by_cases hother : other = here
        · simp [hother]
        · simp [hother, beq_eq_false_iff_ne.2 hother]
      · simp only [ne_eq, hplace, not_false_eq_true, decide_true, List.filter_cons_of_pos,
          List.lookup_cons, ih]
        by_cases hother : other = here
        · simp [hother, hplace]
        · simp [beq_eq_false_iff_ne.2 hother]

/-- A change at one place is seen there and nowhere else. -/
theorem node?_put (t : FileTree) {place : Location} (below : place ≠ []) (node : Node)
    (other : Location) :
    (t.put place node).node? other = if other = place then some node else t.node? other := by
  by_cases hroot : other = []
  · simp [node?, hroot, Ne.symm below]
  · by_cases hother : other = place
    · simp [node?, put, hother, below]
    · simp only [node?, put, hroot, hother, if_false, List.lookup_cons,
        beq_eq_false_iff_ne.2 hother, lookup_filter_ne]

theorem node?_drop (t : FileTree) {place : Location} (below : place ≠ []) (other : Location) :
    (t.drop place).node? other = if other = place then none else t.node? other := by
  by_cases hroot : other = []
  · simp [node?, hroot, Ne.symm below]
  · simp only [node?, drop, hroot, if_false, lookup_filter_ne]

/-! ## Walking -/

theorem walk_append (t : FileTree) (place : Location) (front back : List String) :
    t.walk place (front ++ back) = (t.walk place front).bind fun middle => t.walk middle back := by
  induction front generalizing place with
  | nil => rfl
  | cons part rest ih =>
      simp only [List.cons_append, walk]
      cases t.node? place with
      | none => rfl
      | some node =>
          cases node with
          | directory =>
              simp only [ih]
              split
              · rfl
              · split
                · rfl
                · split <;> rfl
          | file _ _ => rfl
          | program _ _ => rfl

/-- Monotonicity of walks in the directories of the tree. -/
theorem walk_mono {t t' : FileTree}
    (kept : ∀ place, t.node? place = some .directory → t'.node? place = some .directory)
    {place last : Location} {parts : List String} (h : t.walk place parts = .ok last) :
    t'.walk place parts = .ok last := by
  induction parts generalizing place with
  | nil => exact h
  | cons part rest ih =>
      -- a walk goes on from directories only, and these are in both trees
      have hdirectory : t.node? place = some .directory := by
        rw [walk] at h
        split at h
        · cases h
        · assumption
        · cases h
      rw [walk, kept place hdirectory]
      rw [walk, hdirectory] at h
      simp only at h ⊢
      split at h
      · next hdot =>
          rw [if_pos hdot]
          exact ih h
      · next hdot =>
          rw [if_neg hdot]
          split at h
          · next hup =>
              rw [if_pos hup]
              exact ih h
          · next hup =>
              rw [if_neg hup]
              split at h
              · cases h
              · next hshort =>
                  rw [if_neg hshort]
                  exact ih h

theorem locate_mono {t t' : FileTree} (workingDirectory : t'.workingDirectory = t.workingDirectory)
    (kept : ∀ place, t.node? place = some .directory → t'.node? place = some .directory)
    {path : String} {place : Location} (h : t.locate path = .ok place) :
    t'.locate path = .ok place := by
  rw [locate] at h ⊢
  cases hfault : pathFault? path with
  | some e => simp [hfault] at h
  | none =>
      have hstart : t'.start path = t.start path := by rw [start, start, workingDirectory]
      simp only [hfault, hstart] at h ⊢
      exact walk_mono kept h

/-- Every path leads to the same place in both trees, if it leads anywhere. -/
structure SameDirectories (t t' : FileTree) : Prop where
  workingDirectory : t'.workingDirectory = t.workingDirectory
  directory_iff : ∀ place, t'.node? place = some .directory ↔ t.node? place = some .directory

theorem SameDirectories.refl (t : FileTree) : SameDirectories t t :=
  ⟨rfl, fun _ => Iff.rfl⟩

theorem SameDirectories.symm {t t' : FileTree} (same : SameDirectories t t') :
    SameDirectories t' t :=
  ⟨same.workingDirectory.symm, fun place => (same.directory_iff place).symm⟩

theorem SameDirectories.trans {t t' t'' : FileTree} (same : SameDirectories t t')
    (same' : SameDirectories t' t'') : SameDirectories t t'' :=
  ⟨same'.workingDirectory.trans same.workingDirectory,
    fun place => (same'.directory_iff place).trans (same.directory_iff place)⟩

theorem SameDirectories.walk_eq {t t' : FileTree} (same : SameDirectories t t')
    {place last : Location}
    {parts : List String} (h : t.walk place parts = .ok last) : t'.walk place parts = .ok last :=
  walk_mono (fun place => (same.directory_iff place).2) h

theorem SameDirectories.start_eq {t t' : FileTree} (same : SameDirectories t t') (path : String) :
    t'.start path = t.start path := by
  rw [start, start, same.workingDirectory]

theorem SameDirectories.locate_eq {t t' : FileTree} (same : SameDirectories t t') {path : String}
    {place : Location} (h : t.locate path = .ok place) : t'.locate path = .ok place :=
  locate_mono same.workingDirectory (fun place => (same.directory_iff place).2) h

/-! ## Names -/

theorem parts_ne_nil (path : String) : parts path ≠ [] := by
  rw [parts, Ne, List.map_eq_nil_iff]
  exact Path.cut_ne_nil '/' path.toList

theorem exists_last_part (path : String) : ∃ name, (parts path).getLast? = some name :=
  ⟨_, List.getLast?_eq_some_getLast (parts_ne_nil path)⟩

theorem parts_eq_of_last {path name : String} (last : (parts path).getLast? = some name) :
    parts path = (parts path).dropLast ++ [name] := by
  obtain ⟨front, hparts⟩ := List.getLast?_eq_some_iff.1 last
  rw [hparts, List.dropLast_concat]

/-- A path that does not end in a slash has nothing to be taken off. -/
theorem bare_eq {path : String} (unslashed : (path.toList.getLast? == some '/') = false) :
    bare path = path := by
  have hlast : path.toList.reverse.head? ≠ some '/' := by
    rw [List.head?_reverse]
    exact beq_eq_false_iff_ne.1 unslashed
  have hkept : path.toList.reverse.dropWhile (· == '/') = path.toList.reverse := by
    cases hrev : path.toList.reverse with
    | nil => rfl
    | cons c cs =>
        rw [hrev, List.head?_cons] at hlast
        rw [List.dropWhile_cons_of_neg]
        simpa using hlast
  rw [bare, hkept, List.reverse_reverse, String.ofList_toList]

/-- Characterisation of the entry of a path. -/
theorem entry_eq_ok_iff {t : FileTree} {path : String} {e : Entry} :
    t.entry path = .ok e ↔
      pathFault? path = none ∧
      t.walk (t.start path) (parts (bare path)).dropLast = .ok e.directory ∧
      t.node? e.directory = some .directory ∧
      e.name = (parts (bare path)).getLast?.getD "." ∧
      e.slashed = (path.toList.getLast? == some '/') := by
  constructor
  · intro h
    rw [entry] at h
    split at h
    · cases h
    · next hfault =>
        split at h
        · cases h
        · next hwalk =>
            split at h
            · cases h
            · next hdirectory =>
                obtain rfl := Except.ok.inj h
                refine ⟨hfault, hwalk, hdirectory, ?_, ?_⟩ <;> dsimp only
            · cases h
  · rintro ⟨hfault, hwalk, hdirectory, hname, hslashed⟩
    simp only [entry, hfault, hwalk, hdirectory, ← hname, ← hslashed]

/-- A path that ends in a valid name denotes one location, vacant or not. -/
inductive Names (t : FileTree) (path : String) : Location → Prop where
  | mk {e : Entry} (entry : t.entry path = .ok e) (unslashed : e.slashed = false)
      (named : e.isDots = false) (short : isOverlong e.name = false) : Names t path e.place

theorem Names.ne_nil {t : FileTree} {path : String} {place : Location} (h : Names t path place) :
    place ≠ [] := by
  cases h with
  | mk => simp [Entry.place]

theorem SameDirectories.names {t t' : FileTree} (same : SameDirectories t t') {path : String}
    {place : Location} (h : Names t path place) : Names t' path place := by
  cases h with
  | @mk e hentry unslashed named short =>
      obtain ⟨hfault, hwalk, hdirectory, hname, hslashed⟩ := entry_eq_ok_iff.1 hentry
      refine .mk (entry_eq_ok_iff.2 ⟨hfault, ?_, ?_, hname, hslashed⟩) unslashed named short
      · rw [same.start_eq]
        exact same.walk_eq hwalk
      · exact (same.directory_iff e.directory).2 hdirectory

/-- A path leads to the place it names. -/
theorem Names.locate_eq {t : FileTree} {path : String} {place : Location} (h : Names t path place) :
    t.locate path = .ok place := by
  cases h with
  | @mk e hentry unslashed named short =>
      obtain ⟨hfault, hwalk, hdirectory, hname, hslashed⟩ := entry_eq_ok_iff.1 hentry
      rw [bare_eq (hslashed.symm.trans unslashed)] at hwalk hname
      obtain ⟨name, last⟩ := exists_last_part path
      rw [last, Option.getD_some] at hname
      subst hname
      have hdots : e.name ≠ "." ∧ e.name ≠ ".." := by simpa [Entry.isDots] using named
      simp only [locate, hfault]
      rw [parts_eq_of_last last, walk_append, hwalk]
      simp [Except.bind, walk, hdirectory, hdots, short, Entry.place]

/-- A path leads nowhere but to the place it names, if its last part is a name. -/
theorem names_of_locate {t : FileTree} {path name : String} {place : Location}
    (unslashed : (path.toList.getLast? == some '/') = false)
    (last : (parts path).getLast? = some name) (named : name ≠ "." ∧ name ≠ "..")
    (h : t.locate path = .ok place) : Names t path place := by
  rw [locate] at h
  cases hfault : pathFault? path with
  | some e => simp [hfault] at h
  | none =>
      simp only [hfault] at h
      rw [parts_eq_of_last last, walk_append] at h
      cases hwalk : t.walk (t.start path) (parts path).dropLast with
      | error e => simp [hwalk, Except.bind] at h
      | ok directory =>
          simp only [hwalk, Except.bind, walk] at h
          cases hnode : t.node? directory with
          | none => simp [hnode] at h
          | some node =>
              cases node with
              | file _ _ | program _ _ => simp [hnode] at h
              | directory =>
                  simp only [hnode, named.1, named.2, if_false] at h
                  split at h
                  · cases h
                  · next hshort =>
                      cases h
                      have hentry : t.entry path = .ok ⟨directory, name, false⟩ := by
                        refine entry_eq_ok_iff.2 ⟨hfault, ?_, hnode, ?_, unslashed.symm⟩
                        · rw [bare_eq unslashed]
                          exact hwalk
                        · rw [bare_eq unslashed, last, Option.getD_some]
                      exact .mk hentry rfl (by simpa [Entry.isDots] using named)
                        (by simpa using hshort)

/-! ## Operations -/

theorem held_eq_ok {t : FileTree} {e : Entry} {node? : Option Node} (h : t.held e = .ok node?) :
    isOverlong e.name = false ∧ t.node? e.place = node? := by
  rw [held] at h
  split at h
  · cases h
  · next hshort =>
      cases h
      exact ⟨by simpa using hshort, rfl⟩

/-- A file that was created is empty, and stands at the place its path names. -/
theorem exists_put_of_create {t t' : FileTree} {path : String} (h : t.create path = .ok t') :
    ∃ place mode, t.Names path place ∧ t.node? place ≠ some .directory ∧
      t' = t.put place (.file [] mode) := by
  rw [create] at h
  split at h
  · cases h
  · next e hentry =>
      split at h
      · cases h
      · next hplain =>
          obtain ⟨unslashed, named⟩ : e.slashed = false ∧ e.isDots = false := by
            simpa [Bool.or_eq_true, not_or] using hplain
          split at h
          · cases h
          · next hheld =>
              obtain ⟨short, hnode⟩ := held_eq_ok hheld
              cases h
              exact ⟨e.place, _, .mk hentry unslashed named short, by simp [hnode], rfl⟩
          · cases h
          · next node hfile hheld =>
              obtain ⟨short, hnode⟩ := held_eq_ok hheld
              cases h
              cases node with
              | directory => exact absurd rfl hfile
              | file _ mode | program _ mode =>
                  exact ⟨e.place, mode, .mk hentry unslashed named short, by simp [hnode], rfl⟩

/-- A file can be created at a name that is no directory. -/
theorem exists_create_of_names {t : FileTree} {path : String} {place : Location}
    (names : t.Names path place) (free : t.node? place ≠ some .directory) :
    ∃ t', t.create path = .ok t' := by
  cases names with
  | @mk e hentry unslashed named short =>
      have hheld : t.held e = .ok (t.node? e.place) := by
        rw [held, short, if_neg Bool.false_ne_true]
      simp only [create, hentry, unslashed, named, Bool.or_false, Bool.false_eq_true,
        if_false, hheld]
      split
      · next h => cases h
      · exact ⟨_, rfl⟩
      · next h => exact absurd (Except.ok.inj h) free
      · exact ⟨_, rfl⟩

/-- Creation depends on the directories only. -/
theorem SameDirectories.create {t t' u : FileTree} (same : SameDirectories t t') {path : String}
    (h : t.create path = .ok u) : ∃ u', t'.create path = .ok u' := by
  obtain ⟨place, _, names, free, _⟩ := exists_put_of_create h
  exact exists_create_of_names (same.names names) (mt (same.directory_iff place).1 free)

/-- A file whose path is its name can be removed. -/
theorem removeFile_of_names {t : FileTree} {path : String} {place : Location} {node : Node}
    (names : t.Names path place) (there : t.node? place = some node) (file : node ≠ .directory) :
    t.removeFile path = .ok (t.drop place) := by
  cases names with
  | @mk e hentry unslashed named short =>
      have hheld : t.held e = .ok (some node) := by
        rw [held, short, if_neg Bool.false_ne_true, there]
      cases node with
      | directory => exact absurd rfl file
      | file _ _ | program _ _ => simp [removeFile, hentry, named, hheld, unslashed]

/-- Characterisation of `stat` by the location of the path. -/
theorem stat_eq_ok_iff {t : FileTree} {path : String} {node : Node} :
    t.stat path = .ok node ↔ ∃ place, t.locate path = .ok place ∧ t.node? place = some node := by
  rw [stat]
  cases t.locate path with
  | error e => simp
  | ok place => cases hnode : t.node? place <;> simp [hnode]

/-- Removing a file empties the place its path names. -/
theorem exists_drop_of_removeFile {t t' : FileTree} {path : String}
    (h : t.removeFile path = .ok t') :
    ∃ place, t.Names path place ∧ t.node? place ≠ some .directory ∧ t' = t.drop place := by
  rw [removeFile] at h
  split at h
  · cases h
  · next e hentry =>
      split at h
      · cases h
      · next hnamed =>
          split at h
          · cases h
          · cases h
          · cases h
          · next node hfile hheld =>
              obtain ⟨short, hnode⟩ := held_eq_ok hheld
              split at h
              · cases h
              · next hunslashed =>
                  cases h
                  refine ⟨e.place, .mk hentry (by simpa using hunslashed) (by simpa using hnamed)
                    short, ?_, rfl⟩
                  rw [hnode]
                  rintro ⟨⟩
                  exact hfile rfl

/-- A file that is renamed leaves the place its old path names for the one its new path names. -/
theorem exists_move_of_rename {t t' : FileTree} {source target : String}
    (h : t.rename source target = .ok t') :
    ∃ old new node, t.Names source old ∧ t.Names target new ∧ t.node? old = some node ∧
      t.node? new ≠ some .directory ∧ t' = (t.drop old).put new node := by
  rw [rename] at h
  split at h
  · cases h
  · cases h
  · next e e' hentry hentry' =>
      split at h
      · cases h
      · next hnamed =>
          obtain ⟨named, named'⟩ : e.isDots = false ∧ e'.isDots = false := by
            simpa [Bool.or_eq_true, not_or] using hnamed
          split at h
          · cases h
          · cases h
          · cases h
          · cases h
          · next node there _ hheld hheld' =>
              obtain ⟨short, hnode⟩ := held_eq_ok hheld
              obtain ⟨short', hthere⟩ := held_eq_ok hheld'
              split at h
              · cases h
              · next hplain =>
                  obtain ⟨unslashed, unslashed'⟩ : e.slashed = false ∧ e'.slashed = false := by
                    simpa [Bool.or_eq_true, not_or] using hplain
                  split at h
                  · cases h
                  · next hfree =>
                      cases h
                      refine ⟨e.place, e'.place, node, .mk hentry unslashed named short,
                        .mk hentry' unslashed' named' short', hnode, ?_, rfl⟩
                      rw [hthere]
                      rintro rfl
                      exact hfree rfl

/-- A file can be moved from one name to another that is no directory. -/
theorem rename_of_names {t : FileTree} {source target : String} {old new : Location} {node : Node}
    (hold : t.Names source old) (hnew : t.Names target new) (there : t.node? old = some node)
    (file : node ≠ .directory) (free : t.node? new ≠ some .directory) :
    t.rename source target = .ok ((t.drop old).put new node) := by
  cases hold with
  | @mk e hentry unslashed named short =>
      cases hnew with
      | @mk e' hentry' unslashed' named' short' =>
          have hheld : t.held e = .ok (some node) := by
            rw [held, short, if_neg Bool.false_ne_true, there]
          have hheld' : t.held e' = .ok (t.node? e'.place) := by
            rw [held, short', if_neg Bool.false_ne_true]
          simp only [rename, hentry, hentry', named, named', hheld, hheld', unslashed, unslashed',
            Bool.or_false, Bool.false_eq_true, if_false]

/-! ## One file -/

/-- Two trees in which every path leads to the same place, and that differ at most in what stands at
the places some paths lead to. -/
structure AgreesBut (paths : List String) (t t' : FileTree) :
    Prop extends SameDirectories t t' where
  node?_eq : ∀ place, (∀ path ∈ paths, t.locate path ≠ .ok place) → t'.node? place = t.node? place

theorem AgreesBut.refl (paths : List String) (t : FileTree) : AgreesBut paths t t :=
  ⟨.refl t, fun _ _ => rfl⟩

/-- A path that leads to none of these places leads to what it led to. -/
theorem AgreesBut.stat_iff {paths : List String} {t t' : FileTree} (agrees : AgreesBut paths t t')
    {path : String}
    (elsewhere : ∀ other ∈ paths, ∀ place, t.locate path = .ok place → t.locate other ≠ .ok place)
    (node : Node) : t'.stat path = .ok node ↔ t.stat path = .ok node := by
  rw [stat_eq_ok_iff, stat_eq_ok_iff]
  constructor
  · rintro ⟨place, hlocate, hnode⟩
    have hplace := agrees.toSameDirectories.symm.locate_eq hlocate
    rw [agrees.node?_eq place fun other hother => elsewhere other hother place hplace] at hnode
    exact ⟨place, hplace, hnode⟩
  · rintro ⟨place, hlocate, hnode⟩
    refine ⟨place, agrees.toSameDirectories.locate_eq hlocate, ?_⟩
    rw [agrees.node?_eq place fun other hother => elsewhere other hother place hlocate]
    exact hnode

/-- A path that led elsewhere in an earlier tree with the same directories leads to what it led to.
-/
theorem AgreesBut.stat_eq_of_distinct {paths : List String} {t t' t'' : FileTree}
    (agrees : AgreesBut paths t' t'') (same : SameDirectories t t') {path : String} {node : Node}
    (distinct : ∀ other ∈ paths, t.locate path ≠ t.locate other) (h : t'.stat path = .ok node) :
    t''.stat path = .ok node := by
  refine (agrees.stat_iff ?_ node).2 h
  intro other hother place hpath hlocate
  have hsame := (same.symm.locate_eq hpath).trans (same.symm.locate_eq hlocate).symm
  exact distinct other hother hsame

/-- A tree with these bytes in the file that a path names, and nothing else changed. -/
inductive Stores (t : FileTree) (path : String) (data : Bytes) (t' : FileTree) : Prop where
  | mk {place : Location} {mode : Nat} (names : t.Names path place)
      (free : t.node? place ≠ some .directory)
      (workingDirectory : t'.workingDirectory = t.workingDirectory)
      (node?_eq : ∀ other,
        t'.node? other = if other = place then some (.file data mode) else t.node? other)

theorem stores_of_create {t t' : FileTree} {path : String} (h : t.create path = .ok t') :
    Stores t path [] t' := by
  obtain ⟨place, mode, names, free, rfl⟩ := exists_put_of_create h
  exact .mk names free rfl (t.node?_put names.ne_nil _)

/-- A place that is no directory may change without moving any path. -/
theorem sameDirectories_of_node? {t t' : FileTree} {place : Location}
    (workingDirectory : t'.workingDirectory = t.workingDirectory)
    (free : t.node? place ≠ some .directory) (free' : t'.node? place ≠ some .directory)
    (elsewhere : ∀ other, other ≠ place → t'.node? other = t.node? other) :
    SameDirectories t t' := by
  refine ⟨workingDirectory, fun other => ?_⟩
  by_cases hother : other = place
  · subst hother
    exact ⟨fun h => absurd h free', fun h => absurd h free⟩
  · rw [elsewhere other hother]

/-- A file in place of what is no directory moves no path. -/
theorem sameDirectories_put {t : FileTree} {place : Location} {node : Node} (below : place ≠ [])
    (free : t.node? place ≠ some .directory) (file : node ≠ .directory) :
    SameDirectories t (t.put place node) := by
  have hnodes := t.node?_put below node
  refine sameDirectories_of_node? rfl free ?_ ?_
  · simpa [hnodes] using file
  · intro other hother
    rw [hnodes, if_neg hother]

/-- Emptying the place of what is no directory moves no path. -/
theorem sameDirectories_drop {t : FileTree} {place : Location} (below : place ≠ [])
    (file : t.node? place ≠ some .directory) : SameDirectories t (t.drop place) := by
  have hnodes := t.node?_drop below
  refine sameDirectories_of_node? rfl file ?_ ?_
  · simp [hnodes]
  · intro other hother
    rw [hnodes, if_neg hother]

theorem Stores.sameDirectories {t t' : FileTree} {path : String} {data : Bytes}
    (h : Stores t path data t') : SameDirectories t t' := by
  cases h with
  | mk names free hdirectory hnodes =>
      refine sameDirectories_of_node? hdirectory free ?_ ?_
      · simp [hnodes]
      · intro other hother
        rw [hnodes, if_neg hother]

theorem Stores.agreesBut {t t' : FileTree} {path : String} {data : Bytes}
    (h : Stores t path data t') : AgreesBut [path] t t' := by
  refine ⟨h.sameDirectories, fun other elsewhere => ?_⟩
  cases h with
  | mk names free hdirectory hnodes =>
      rw [hnodes, if_neg]
      rintro rfl
      exact elsewhere path (by simp) names.locate_eq

/-- The file is found with its bytes. -/
theorem Stores.exists_stat {t t' : FileTree} {path : String} {data : Bytes}
    (h : Stores t path data t') : ∃ mode, t'.stat path = .ok (.file data mode) := by
  have same := h.sameDirectories
  cases h with
  | @mk place mode names free hdirectory hnodes =>
      refine ⟨mode, ?_⟩
      rw [stat, same.locate_eq names.locate_eq]
      simp only [hnodes, if_true]

/-- More bytes are added behind those the file has. -/
theorem Stores.append {t t' : FileTree} {path : String} {data : Bytes} (h : Stores t path data t')
    (more : Bytes) : Stores t path (data ++ more) (t'.append path more) := by
  have same := h.sameDirectories
  cases h with
  | @mk place mode names free hdirectory hnodes =>
      have hthere : t'.node? place = some (.file data mode) := by rw [hnodes, if_pos rfl]
      have happend : t'.append path more = t'.put place (.file (data ++ more) mode) := by
        simp only [FileTree.append, same.locate_eq names.locate_eq, hthere]
        rfl
      have hafter : ∀ other, (t'.append path more).node? other =
          if other = place then some (.file (data ++ more) mode) else t.node? other := by
        intro other
        rw [happend, node?_put _ names.ne_nil, hnodes]
        split <;> rfl
      exact .mk names free (by rw [happend]; exact hdirectory) hafter

/-- Removal of a file empties its path and leaves all else as it was. -/
theorem AgreesBut.removeFile {t u u' : FileTree} {path : String} (agrees : AgreesBut [path] t u)
    (h : u.removeFile path = .ok u') :
    AgreesBut [path] t u' ∧ u'.stat path = .error .noEntry := by
  have same := agrees.toSameDirectories
  obtain ⟨place, names, free, rfl⟩ := exists_drop_of_removeFile h
  have hnodes := u.node?_drop names.ne_nil
  have same' : SameDirectories u (u.drop place) := by
    refine sameDirectories_of_node? rfl free ?_ ?_
    · simp [hnodes]
    · intro other hother
      rw [hnodes, if_neg hother]
  constructor
  · refine ⟨same.trans same', fun other elsewhere => ?_⟩
    rw [hnodes, if_neg, agrees.node?_eq other elsewhere]
    rintro rfl
    exact elsewhere path (by simp) (same.symm.locate_eq names.locate_eq)
  · simp only [stat, same'.locate_eq names.locate_eq, hnodes, if_true]

end FileTree

end Transcode
