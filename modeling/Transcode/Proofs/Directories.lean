import Transcode.Proofs.FileTree
/-!
# Making directories

The effect of making a directory with its parents on a file tree. Existing nodes are unchanged and
new nodes are directories, each at a location of the path or of a path of its leading parts
(`FileTree.Adds`). Such a location need not lie above the requested directory: the path `a/../b`
makes a directory at `a`.
-/

set_option autoImplicit false

namespace Transcode

namespace Path

/-- A separator at the end opens an empty part. -/
theorem cut_concat {α : Type} [DecidableEq α] (separator : α) (word : List α) :
    cut separator (word ++ [separator]) = cut separator word ++ [[]] := by
  induction word with
  | nil => simp [cut]
  | cons c cs ih =>
      by_cases hc : c = separator
      · simp [cut, hc, ih]
      · obtain ⟨w, ws, hcut⟩ := List.exists_cons_of_ne_nil (cut_ne_nil separator cs)
        simp [cut, hc, ih, hcut]

end Path

namespace FileTree

variable {t t' t'' : FileTree} {path : String}

/-! ## Slashes at the end -/

/-- A tree that has all that another one has. -/
structure Grows (t t' : FileTree) : Prop where
  workingDirectory : t'.workingDirectory = t.workingDirectory
  kept : ∀ place node, t.node? place = some node → t'.node? place = some node

theorem Grows.refl (t : FileTree) : Grows t t :=
  ⟨rfl, fun _ _ h => h⟩

theorem Grows.trans (h : Grows t t') (h' : Grows t' t'') : Grows t t'' :=
  ⟨h'.workingDirectory.trans h.workingDirectory,
    fun place node hnode => h'.kept place node (h.kept place node hnode)⟩

theorem Grows.walk_eq (h : Grows t t') {place last : Location} {parts : List String}
    (hwalk : t.walk place parts = .ok last) : t'.walk place parts = .ok last :=
  walk_mono (fun place => h.kept place .directory) hwalk

theorem Grows.locate_eq (h : Grows t t') {place : Location} (hlocate : t.locate path = .ok place) :
    t'.locate path = .ok place :=
  locate_mono h.workingDirectory (fun place => h.kept place .directory) hlocate

/-- A tree with new directories, each at a place to which one of some paths leads. -/
structure Adds (leads : String → Prop) (t t' : FileTree) : Prop extends Grows t t' where
  added : ∀ place node, t.node? place = none → t'.node? place = some node →
    node = .directory ∧ ∃ path, leads path ∧ t'.locate path = .ok place

variable {leads leads' : String → Prop}

theorem Adds.refl (leads : String → Prop) (t : FileTree) : Adds leads t t := by
  refine ⟨.refl t, ?_⟩
  intro place node hnone hsome
  cases hnone.symm.trans hsome

theorem Adds.trans (h : Adds leads t t') (h' : Adds leads t' t'') : Adds leads t t'' := by
  refine ⟨h.toGrows.trans h'.toGrows, ?_⟩
  intro place node hnone hnode
  cases hmiddle : t'.node? place with
  | none => exact h'.added place node hmiddle hnode
  | some node' =>
      -- a directory of the first tree is still there, and paths still lead to it
      obtain ⟨rfl, path, hleads, hlocate⟩ := h.added place node' hnone hmiddle
      obtain rfl := Option.some.inj ((h'.kept place _ hmiddle).symm.trans hnode)
      exact ⟨rfl, path, hleads, h'.toGrows.locate_eq hlocate⟩

theorem Adds.mono (h : Adds leads t t') (more : ∀ path, leads path → leads' path) :
    Adds leads' t t' := by
  refine ⟨h.toGrows, ?_⟩
  intro place node hnone hnode
  obtain ⟨hdirectory, path, hleads, hlocate⟩ := h.added place node hnone hnode
  exact ⟨hdirectory, path, more path hleads, hlocate⟩

/-! ## Making them -/

end FileTree

end Transcode
