import Transcode.Proofs.Directories
/-!
# The entries of a directory

`FileTree.child?` is the entry of a directory under a name. The path of a directory joined with a
name leads to the entry of that name, as long as the path is not too long (`FileTree.names_join`),
and the names that are listed are those of entries (`FileTree.mem_namesIn`). `FileTree.IsListed` is
a directory as a file system has one: its entries have names that a directory can hold, and each is
there once.
-/

set_option autoImplicit false

namespace Transcode

namespace Path

/-- A separator opens the last part. -/
theorem cut_append_cons {α : Type} [DecidableEq α] {separator : α} {ending : List α}
    (plain : separator ∉ ending) (word : List α) :
    cut separator (word ++ separator :: ending) = cut separator word ++ [ending] := by
  have hopen := cut_concat separator word
  obtain ⟨front, last, hcut, happend⟩ := cut_append plain (word ++ [separator])
  rw [hopen] at hcut
  obtain ⟨hfront, hlast⟩ := List.append_inj' hcut rfl
  obtain rfl := List.singleton_inj.1 hlast
  rw [← List.append_cons] at happend
  rw [happend, hfront, List.nil_append]

/-- A path below a directory: the directory, a slash unless it has one, and the name. -/
theorem exists_join {directory name : String} (nonempty : directory.toList ≠ [])
    (plain : '/' ∉ name.toList) :
    ∃ front, (join directory name).toList = front ++ '/' :: name.toList ∧
      (directory.toList = front ∨ directory.toList = front ++ ['/']) := by
  have hrelative : isAbsolute name = false := by
    rw [isAbsolute, beq_eq_false_iff_ne]
    intro hhead
    exact plain (List.mem_of_mem_head? hhead)
  have hdirectory : directory.toList.isEmpty = false := by simpa using nonempty
  rw [join, hrelative, hdirectory, Bool.or_self, if_neg Bool.false_ne_true]
  split
  · next hslash =>
      obtain ⟨front, hfront⟩ := List.getLast?_eq_some_iff.1 (beq_iff_eq.1 hslash)
      refine ⟨front, ?_, .inr hfront⟩
      rw [String.toList_append, hfront, List.append_assoc]
      rfl
  · refine ⟨directory.toList, ?_, .inl rfl⟩
    rw [String.toList_append, String.toList_append, List.append_assoc]
    rfl

/-- A suffix of a path below a directory is a suffix of the name. -/
theorem join_append {directory name : String} (ending : String) (nonempty : name.toList ≠ []) :
    join directory (name ++ ending) = join directory name ++ ending := by
  have habsolute : isAbsolute (name ++ ending) = isAbsolute name := by
    obtain ⟨c, cs, hname⟩ := List.exists_cons_of_ne_nil nonempty
    simp only [isAbsolute, String.toList_append, hname, List.cons_append, List.head?_cons]
  simp only [join, habsolute]
  split
  · rfl
  · split
    · rw [String.append_assoc]
    · rw [String.append_assoc, String.append_assoc, String.append_assoc]

theorem utf8ByteSize_join_le (directory name : String) :
    (join directory name).utf8ByteSize ≤ directory.utf8ByteSize + 1 + name.utf8ByteSize := by
  have hslash : "/".utf8ByteSize = 1 := by decide
  unfold join
  split
  · exact Nat.le_add_left _ _
  · split
    · rw [String.utf8ByteSize_append]
      omega
    · apply Nat.le_of_eq
      rw [String.utf8ByteSize_append, String.utf8ByteSize_append, hslash]

end Path

namespace FileTree

variable {t t' : FileTree} {directory name : String} {place : Location}

/-! ## Names -/

/-- A name that an entry of a directory can have. -/
structure IsName (name : String) : Prop where
  nonempty : name.toList ≠ []
  unslashed : '/' ∉ name.toList
  unended : '\x00' ∉ name.toList
  notDot : name ≠ "."
  notUp : name ≠ ".."
  short : isOverlong name = false

instance (name : String) : Decidable (IsName name) :=
  decidable_of_iff (name.toList ≠ [] ∧ '/' ∉ name.toList ∧ '\x00' ∉ name.toList ∧ name ≠ "." ∧
      name ≠ ".." ∧ isOverlong name = false)
    ⟨fun ⟨h₁, h₂, h₃, h₄, h₅, h₆⟩ => ⟨h₁, h₂, h₃, h₄, h₅, h₆⟩,
      fun ⟨h₁, h₂, h₃, h₄, h₅, h₆⟩ => ⟨h₁, h₂, h₃, h₄, h₅, h₆⟩⟩

/-- The bytes of a path stay below the limit. -/
def IsShortPath (path : String) : Prop :=
  path.utf8ByteSize < pathLimit

instance (path : String) : Decidable (IsShortPath path) :=
  inferInstanceAs (Decidable (_ < _))

/-- Entries of a directory with a path of moderate length have paths that are not too long. -/
theorem isShortPath_join (moderate : directory.utf8ByteSize + nameLimit + 1 < pathLimit)
    (short : isOverlong name = false) : IsShortPath (Path.join directory name) := by
  have hsize := Path.utf8ByteSize_join_le directory name
  rw [isOverlong, decide_eq_false_iff_not] at short
  unfold IsShortPath
  omega

/-- A path that is not refused is short, and no other fault was found in it. -/
theorem pathFault?_eq_none_iff {path : String} :
    pathFault? path = none ↔ '\x00' ∉ path.toList ∧ path.toList ≠ [] ∧ IsShortPath path := by
  rw [pathFault?, IsShortPath]
  by_cases hended : '\x00' ∈ path.toList
  · simp [hended]
  · by_cases hempty : path.toList = []
    · simp [hempty]
    · by_cases hlong : pathLimit ≤ path.utf8ByteSize
      · simp [hended, hempty, hlong]
      · simp [hended, hempty, hlong, Nat.lt_of_not_le hlong]

theorem pathFault?_of_locate (h : t.locate directory = .ok place) :
    pathFault? directory = none := by
  rw [locate] at h
  split at h
  · cases h
  · assumption

/-- The parts of a path below a directory: those that lead to the directory, and the name. -/
theorem exists_parts_join (located : t.locate directory = .ok place)
    (nonempty : name.toList ≠ []) (plain : '/' ∉ name.toList) :
    ∃ front, parts (Path.join directory name) = front ++ [name] ∧
      t.walk (t.start (Path.join directory name)) front = .ok place := by
  have hfault := pathFault?_of_locate located
  have hdirectory := (pathFault?_eq_none_iff.1 hfault).2.1
  have hwalk : t.walk (t.start directory) (parts directory) = .ok place := by
    simpa only [locate, hfault] using located
  obtain ⟨front, hjoin, hfront⟩ := Path.exists_join hdirectory plain
  have hparts : parts (Path.join directory name) = parts (String.ofList front) ++ [name] := by
    rw [parts, hjoin, Path.cut_append_cons plain, List.map_append, parts, String.toList_ofList]
    simp [nonempty]
  -- both paths are absolute or neither is, since they begin alike
  have hstart : t.start (Path.join directory name) = t.start directory := by
    have hhead : (Path.join directory name).toList.head? = directory.toList.head? := by
      rcases hfront with hsame | hslash
      · obtain ⟨c, cs, hcons⟩ := List.exists_cons_of_ne_nil hdirectory
        rw [hjoin, ← hsame, hcons]
        rfl
      · rw [hjoin, hslash]
        cases front <;> rfl
    rw [start, start, Path.isAbsolute, Path.isAbsolute, hhead]
  refine ⟨parts (String.ofList front), hparts, ?_⟩
  rw [hstart]
  rcases hfront with hsame | hslash
  · rw [← hsame, String.ofList_toList]
    exact hwalk
  · -- the slash at the end of the directory says only that a directory stands before it
    have hdots : parts directory = parts (String.ofList front) ++ ["."] := by
      rw [parts, hslash, Path.cut_concat, List.map_append, parts, String.toList_ofList]
      rfl
    rw [hdots, walk_append] at hwalk
    cases hbefore : t.walk (t.start directory) (parts (String.ofList front)) with
    | error e =>
        rw [hbefore] at hwalk
        cases hwalk
    | ok before =>
        simp only [hbefore, Except.bind, walk] at hwalk
        split at hwalk
        · cases hwalk
        · simpa using hwalk
        · cases hwalk

theorem unslashed_join (located : t.locate directory = .ok place) (nonempty : name.toList ≠ [])
    (plain : '/' ∉ name.toList) :
    ((Path.join directory name).toList.getLast? == some '/') = false := by
  have hdirectory := (pathFault?_eq_none_iff.1 (pathFault?_of_locate located)).2.1
  obtain ⟨front, hjoin, -⟩ := Path.exists_join hdirectory plain
  have hlast : (front ++ '/' :: name.toList).getLast? = some (name.toList.getLast nonempty) := by
    rw [List.getLast?_append, List.getLast?_cons_of_ne_nil nonempty,
      List.getLast?_eq_some_getLast nonempty, Option.some_or]
  rw [hjoin, hlast, beq_eq_false_iff_ne]
  intro hslash
  exact plain (Option.some.inj hslash ▸ List.getLast_mem nonempty)

/-- A path below a directory names the entry of that name, whether something is there or not. -/
theorem names_join (located : t.locate directory = .ok place)
    (there : t.node? place = some .directory) (named : IsName name)
    (short : IsShortPath (Path.join directory name)) :
    t.Names (Path.join directory name) (place ++ [name]) := by
  obtain ⟨front, hparts, hwalk⟩ := exists_parts_join located named.nonempty named.unslashed
  have hunslashed := unslashed_join located named.nonempty named.unslashed
  have hfault : pathFault? (Path.join directory name) = none := by
    obtain ⟨hended, hdirectory, -⟩ := pathFault?_eq_none_iff.1 (pathFault?_of_locate located)
    obtain ⟨before, hjoin, hbefore⟩ := Path.exists_join hdirectory named.unslashed
    refine pathFault?_eq_none_iff.2 ⟨?_, by simp [hjoin], short⟩
    have hfree : '\x00' ∉ before := by
      rcases hbefore with hsame | hslash
      · rwa [hsame] at hended
      · rw [hslash] at hended
        exact fun h => hended (List.mem_append_left _ h)
    rw [hjoin, List.mem_append, List.mem_cons]
    rintro (h | h | h)
    · exact hfree h
    · exact absurd h (by decide)
    · exact named.unended h
  have hentry : t.entry (Path.join directory name) = .ok ⟨place, name, false⟩ := by
    refine entry_eq_ok_iff.2 ⟨hfault, ?_, there, ?_, hunslashed.symm⟩
    · rw [bare_eq hunslashed, hparts, List.dropLast_concat]
      exact hwalk
    · rw [bare_eq hunslashed, hparts, List.getLast?_concat, Option.getD_some]
  exact .mk hentry rfl (by simp [Entry.isDots, named.notDot, named.notUp]) named.short

/-- A path below a directory that names something is short, and so is the name. -/
theorem Names.short_join {other : Location} (names : t.Names (Path.join directory name) other)
    (located : t.locate directory = .ok place) (nonempty : name.toList ≠ [])
    (plain : '/' ∉ name.toList) :
    IsShortPath (Path.join directory name) ∧ isOverlong name = false := by
  obtain ⟨front, hparts, -⟩ := exists_parts_join located nonempty plain
  have hunslashed := unslashed_join located nonempty plain
  cases names with
  | @mk e hentry _ _ short =>
      obtain ⟨hfault, -, -, hname, -⟩ := entry_eq_ok_iff.1 hentry
      rw [bare_eq hunslashed, hparts, List.getLast?_concat, Option.getD_some] at hname
      exact ⟨(pathFault?_eq_none_iff.1 hfault).2.2, hname ▸ short⟩

/-- A path below a directory that leads anywhere names the entry. -/
theorem names_of_locate_join {other : Location} (located : t.locate directory = .ok place)
    (nonempty : name.toList ≠ []) (plain : '/' ∉ name.toList) (notDots : name ≠ "." ∧ name ≠ "..")
    (leads : t.locate (Path.join directory name) = .ok other) :
    t.Names (Path.join directory name) other := by
  obtain ⟨front, hparts, -⟩ := exists_parts_join located nonempty plain
  refine names_of_locate (unslashed_join located nonempty plain) ?_ notDots leads
  rw [hparts, List.getLast?_concat]

/-- A new file is empty, with the permissions of new files. -/
theorem create_of_names {path : String} (names : t.Names path place) (free : t.node? place = none) :
    t.create path = .ok (t.put place (.file [] Node.newMode)) := by
  cases names with
  | @mk e hentry unslashed named short =>
      have hheld : t.held e = .ok none := by rw [held, short, if_neg Bool.false_ne_true, free]
      simp [create, hentry, unslashed, named, hheld]

/-- Of two changes at one place the later one counts. -/
theorem put_put (t : FileTree) (place : Location) (node node' : Node) :
    (t.put place node).put place node' = t.put place node' := by
  simp [put, List.filter_filter]

/-- Bytes are added at the end of the file a path names. -/
theorem append_of_names {path : String} {data : Bytes} {mode : Nat} (names : t.Names path place)
    (there : t.node? place = some (.file data mode)) (more : Bytes) :
    t.append path more = t.put place (.file (data ++ more) mode) := by
  simp only [append, names.locate_eq, there]
  rfl

/-- Where nothing was, a file is made empty and then filled. -/
theorem append_put_of_names {path : String} (names : t.Names path place)
    (free : t.node? place = none)
    (data : Bytes) :
    (t.put place (.file [] Node.newMode)).append path data =
      t.put place (.file data Node.newMode) := by
  have same : SameDirectories t (t.put place (.file [] Node.newMode)) :=
    sameDirectories_put names.ne_nil (by simp [free]) (by simp)
  have hempty : (t.put place (.file [] Node.newMode)).node? place =
      some (.file [] Node.newMode) := by
    rw [t.node?_put names.ne_nil, if_pos rfl]
  rw [append_of_names (same.names names) hempty, put_put, List.nil_append]

theorem stat_of_names {path : String} {node : Node} (names : t.Names path place)
    (there : t.node? place = some node) : t.stat path = .ok node :=
  stat_eq_ok_iff.2 ⟨place, names.locate_eq, there⟩

theorem pathExists_of_names {path : String} (names : t.Names path place) :
    t.pathExists path = (t.node? place).isSome := by
  rw [pathExists, stat, names.locate_eq]
  cases hnode : t.node? place <;> simp [hnode, Except.isOk, Except.toBool]

/-! ## Entries -/

/-- The node of an entry of a directory. -/
def child? (t : FileTree) (place : Location) (name : String) : Option Node :=
  t.node? (place ++ [name])

theorem child?_put (t : FileTree) (place : Location) (name : String) (node : Node)
    (other : String) :
    (t.put (place ++ [name]) node).child? place other =
      if other = name then some node else t.child? place other := by
  simp [child?, node?_put]

theorem child?_drop (t : FileTree) (place : Location) (name other : String) :
    (t.drop (place ++ [name])).child? place other =
      if other = name then none else t.child? place other := by
  simp [child?, node?_drop]

/-- No place is given twice. -/
def IsDistinct (t : FileTree) : Prop :=
  (t.nodes.map Prod.fst).Nodup

theorem IsDistinct.drop (distinct : t.IsDistinct) (place : Location) : (t.drop place).IsDistinct :=
  List.Nodup.sublist (List.filter_sublist.map Prod.fst) distinct

theorem IsDistinct.put (distinct : t.IsDistinct) (place : Location) (node : Node) :
    (t.put place node).IsDistinct := by
  refine List.nodup_cons.2 ⟨?_, distinct.drop place⟩
  simp

/-- The places in a directory are the entries with its names. -/
theorem eq_concat_iff {other : Location} :
    (other ≠ [] ∧ other.dropLast = place) ∧ other.getLast? = some name ↔
      other = place ++ [name] := by
  constructor
  · rintro ⟨⟨-, rfl⟩, hlast⟩
    obtain ⟨front, rfl⟩ := List.getLast?_eq_some_iff.1 hlast
    rw [List.dropLast_concat]
  · rintro rfl
    simp

theorem lookup_isSome_iff (nodes : List (Location × Node)) (place : Location) :
    (nodes.lookup place).isSome ↔ place ∈ nodes.map Prod.fst := by
  induction nodes with
  | nil => simp
  | cons e rest ih =>
      obtain ⟨here, node⟩ := e
      rw [List.lookup_cons, List.map_cons, List.mem_cons]
      by_cases hplace : place = here
      · simp [hplace]
      · rw [beq_eq_false_iff_ne.2 hplace, ih]
        simp [hplace]

/-- The names in a directory are those under which it holds something. -/
theorem mem_namesIn : name ∈ t.namesIn place ↔ t.child? place name ≠ none := by
  have hlookup := lookup_isSome_iff t.nodes (place ++ [name])
  rw [child?, node?, if_neg (by simp), ← Option.isSome_iff_ne_none, hlookup, namesIn,
    List.mem_filterMap, List.mem_map]
  constructor
  · rintro ⟨e, he, hname⟩
    split at hname
    · next hbelow => exact ⟨e, he, eq_concat_iff.1 ⟨hbelow, hname⟩⟩
    · cases hname
  · rintro ⟨e, he, hplace⟩
    obtain ⟨hbelow, hname⟩ := eq_concat_iff.2 hplace
    exact ⟨e, he, by rw [if_pos hbelow, hname]⟩

theorem IsDistinct.namesIn (distinct : t.IsDistinct) (place : Location) :
    (t.namesIn place).Nodup := by
  rw [IsDistinct, List.Nodup, List.pairwise_map] at distinct
  rw [FileTree.namesIn, List.Nodup, List.pairwise_filterMap]
  refine distinct.imp ?_
  intro e e' hne name hname name' hname' hsame
  split at hname
  · next hbelow =>
      split at hname'
      · next hbelow' =>
          rw [eq_concat_iff.1 ⟨hbelow, hname⟩, eq_concat_iff.1 ⟨hbelow', hname'⟩, hsame] at hne
          exact hne rfl
      · cases hname'
  · cases hname

/-- A directory at a path: what it holds has names, and each entry is there once. -/
structure IsListed (t : FileTree) (directory : String) (place : Location) : Prop where
  located : t.locate directory = .ok place
  there : t.node? place = some .directory
  named : ∀ name, t.child? place name ≠ none → IsName name
  distinct : t.IsDistinct

/-- The listing of a listed directory: its names in order. -/
theorem IsListed.list_eq (listed : t.IsListed directory place) :
    t.list directory = .ok ((t.namesIn place).mergeSort fun a b => a ≤ b) := by
  simp only [list, listed.located, listed.there]

theorem IsListed.pathExists (listed : t.IsListed directory place) :
    t.pathExists directory = true := by
  simp [FileTree.pathExists, stat, listed.located, listed.there, Except.isOk, Except.toBool]

/-- Emptying the place of a file leaves a directory. -/
theorem IsListed.drop (listed : t.IsListed directory place)
    (file : t.child? place name ≠ some .directory) :
    (t.drop (place ++ [name])).IsListed directory place := by
  have same : SameDirectories t (t.drop (place ++ [name])) := sameDirectories_drop (by simp) file
  refine ⟨same.locate_eq listed.located, (same.directory_iff place).2 listed.there, ?_,
    listed.distinct.drop _⟩
  intro other hother
  rw [child?_drop] at hother
  split at hother
  · exact absurd rfl hother
  · exact listed.named other hother

/-- Putting a file where no directory stands leaves a directory. -/
theorem IsListed.put (listed : t.IsListed directory place) (named : IsName name)
    (free : t.child? place name ≠ some .directory) (data : Bytes) (mode : Nat) :
    (t.put (place ++ [name]) (.file data mode)).IsListed directory place := by
  have same : SameDirectories t (t.put (place ++ [name]) (.file data mode)) :=
    sameDirectories_put (by simp) free (by simp)
  refine ⟨same.locate_eq listed.located, (same.directory_iff place).2 listed.there, ?_,
    listed.distinct.put _ _⟩
  intro other hother
  rw [child?_put] at hother
  split at hother
  · next hsame => exact hsame ▸ named
  · exact listed.named other hother

end FileTree

end Transcode
