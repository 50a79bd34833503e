/-!
# Pairs ordered by name

Lists of pairs whose names increase strictly. Names are compared by code point, which is also the
order of their UTF-8 bytes. The order is part of the type, and placing a pair preserves it.
-/

set_option autoImplicit false

namespace Transcode

/-- Values by name: pairs whose names increase strictly. -/
structure Ordered (α : Type) where
  entries : List (String × α) := []
  increasing : entries.Pairwise fun p q => p.1 < q.1 := by decide
deriving Repr, DecidableEq

namespace Ordered

variable {α : Type} {name : String} {value : α} {pairs : List (String × α)}

/-- No pairs. -/
def empty : Ordered α :=
  ⟨[], .nil⟩

/-- Puts a pair at its place in a list, over the value the name had. -/
def placeIn (name : String) (value : α) : List (String × α) → List (String × α)
  | [] => [(name, value)]
  | (n, v) :: rest =>
      if name < n then (name, value) :: (n, v) :: rest
      else if name = n then (name, value) :: rest
      else (n, v) :: placeIn name value rest

/-- A name that is placed comes in, and no other does. -/
theorem mem_placeIn {p : String × α} (h : p ∈ placeIn name value pairs) :
    p.1 = name ∨ p ∈ pairs := by
  induction pairs with
  | nil => exact .inl (congrArg Prod.fst (List.mem_singleton.1 h))
  | cons q rest ih =>
      obtain ⟨n, v⟩ := q
      unfold placeIn at h
      split at h
      · rcases List.mem_cons.1 h with rfl | hrest
        · exact .inl rfl
        · exact .inr hrest
      · split at h
        · rcases List.mem_cons.1 h with rfl | hrest
          · exact .inl rfl
          · exact .inr (List.mem_cons_of_mem _ hrest)
        · rcases List.mem_cons.1 h with rfl | hrest
          · exact .inr List.mem_cons_self
          · exact (ih hrest).imp_right (List.mem_cons_of_mem _)

theorem pairwise_placeIn (increasing : pairs.Pairwise fun p q => p.1 < q.1) :
    (placeIn name value pairs).Pairwise fun p q => p.1 < q.1 := by
  induction pairs with
  | nil => exact List.pairwise_singleton _ _
  | cons q rest ih =>
      obtain ⟨n, v⟩ := q
      obtain ⟨hfirst, hrest⟩ := List.pairwise_cons.1 increasing
      unfold placeIn
      split
      · next hless =>
          refine List.pairwise_cons.2 ⟨?_, increasing⟩
          intro p hp
          rcases List.mem_cons.1 hp with rfl | hp
          · exact hless
          · exact String.lt_trans hless (hfirst p hp)
      · next hnotLess =>
          split
          · next hsame =>
              obtain rfl := hsame
              exact List.pairwise_cons.2 ⟨hfirst, hrest⟩
          · next hne =>
              refine List.pairwise_cons.2 ⟨?_, ih hrest⟩
              intro p hp
              rcases mem_placeIn hp with hname | hp
              · rw [hname]
                exact Std.lt_of_le_of_ne (String.not_lt.1 hnotLess) (Ne.symm hne)
              · exact hfirst p hp

/-- Puts a pair at its place, over the value the name had. -/
def place (name : String) (value : α) (table : Ordered α) : Ordered α :=
  ⟨placeIn name value table.entries, pairwise_placeIn table.increasing⟩

/-- Pairs in order; of several values for a name the last one counts. -/
def ofList (pairs : List (String × α)) : Ordered α :=
  pairs.foldl (fun table p => place p.1 p.2 table) empty

end Ordered

end Transcode
