import Mathlib.Data.List.Sort
import Transcode.Proofs.ByteOrder
import Transcode.Proofs.OptionPairs
/-!
# Tables of options

A table is determined by its look-ups (`OptionTable.ext_get?`), and so is every law about tables.
Options are read from a list of items, the pairs of a command line or the entries of a profile:
reading fails with the first item that fails, and the last item that gives a name its value counts
(`OptionTable.setAll_eq_error_iff`, `OptionTable.get?_setAll`). Merging sets the entries of a table
in the same way. So reading turns concatenation of pairs into merging of tables, and inverts
rendering (`OptionTable.ofPairs_algebra`).
-/

set_option autoImplicit false

namespace Transcode

/-! ## Look-ups -/

namespace Ordered

variable {α : Type} {table table' : Ordered α} {n : String} {v : α}

theorem lookup_cons (p : String × α) (rest : List (String × α)) (n : String) :
    (p :: rest).lookup n = if n = p.1 then some p.2 else rest.lookup n := by
  rw [List.lookup_cons]
  by_cases hn : n = p.1
  · rw [if_pos hn, beq_iff_eq.2 hn]
  · rw [if_neg hn, beq_eq_false_iff_ne.2 hn]

/-- A name that is placed has the new value, and no other name is touched. -/
theorem lookup_placeIn (name : String) (value : α) (pairs : List (String × α)) (n : String) :
    (placeIn name value pairs).lookup n = if n = name then some value else pairs.lookup n := by
  induction pairs with
  | nil => exact lookup_cons (name, value) [] n
  | cons p rest ih =>
      unfold placeIn
      split
      · exact lookup_cons (name, value) (p :: rest) n
      · split
        · next hsame =>
            rw [lookup_cons, lookup_cons, hsame]
            split
            · rfl
            · rfl
        · next hne =>
            rw [lookup_cons, lookup_cons, ih]
            by_cases hn : n = p.1
            · rw [if_pos hn, if_pos hn, if_neg fun h => hne (h.symm.trans hn)]
            · rw [if_neg hn, if_neg hn]

theorem lookup_eq_some_iff (table : Ordered α) :
    table.entries.lookup n = some v ↔ (n, v) ∈ table.entries := by
  obtain ⟨pairs, increasing⟩ := table
  show pairs.lookup n = some v ↔ (n, v) ∈ pairs
  induction pairs with
  | nil => simp
  | cons p rest ih =>
      obtain ⟨hfirst, hrest⟩ := List.pairwise_cons.1 increasing
      rw [lookup_cons, List.mem_cons, Prod.ext_iff]
      by_cases hn : n = p.1
      · -- further back all names are greater
        have hmem : (n, v) ∉ rest := fun h => String.lt_irrefl _ (hn ▸ hfirst _ h)
        rw [if_pos hn, Option.some.injEq, or_iff_left hmem]
        exact ⟨fun h => ⟨hn, h.symm⟩, fun h => h.2.symm⟩
      · rw [if_neg hn, ih hrest, or_iff_right fun h => hn h.1]

theorem mem_place_iff {name : String} {value : α} :
    (n, v) ∈ (place name value table).entries ↔
      if n = name then v = value else (n, v) ∈ table.entries := by
  rw [← lookup_eq_some_iff, place, lookup_placeIn]
  split
  · rw [Option.some.injEq, eq_comm]
  · exact table.lookup_eq_some_iff

/-- Extensionality: pairs in order are determined by the look-ups. -/
theorem ext_lookup (same : ∀ n, table.entries.lookup n = table'.entries.lookup n) :
    table = table' := by
  have hantisymm : Std.Antisymm fun p q : String × α => p.1 < q.1 :=
    ⟨fun p q h h' => absurd (String.lt_trans h h') (String.lt_irrefl _)⟩
  have hirrefl : Std.Irrefl fun p q : String × α => p.1 < q.1 := ⟨fun p => String.lt_irrefl _⟩
  have hentries : table.entries = table'.entries := by
    apply List.Pairwise.eq_of_mem_iff table.increasing table'.increasing
    intro p
    rw [← table.lookup_eq_some_iff (n := p.1) (v := p.2), same, table'.lookup_eq_some_iff]
  cases table
  cases table'
  cases hentries
  rfl

end Ordered

namespace OptionTable

variable {table table' other : OptionTable} {name value : String}

theorem get?_set (table : OptionTable) (name value n : String) :
    (table.set name value).get? n = if n = name then some value else table.get? n :=
  Ordered.lookup_placeIn name value table.entries n

theorem get?_eq_some_iff : table.get? name = some value ↔ (name, value) ∈ table.entries :=
  table.lookup_eq_some_iff

theorem mem_names_iff : name ∈ table.names ↔ ∃ value, table.get? name = some value := by
  simp [get?_eq_some_iff, names]

/-- Extensionality: tables are determined by the look-ups. -/
theorem ext_get? (same : ∀ name, table.get? name = table'.get? name) : table = table' := by
  have hordered : table.toOrdered = table'.toOrdered := Ordered.ext_lookup same
  cases table
  cases table'
  cases hordered
  rfl

/-! ## Lists of items -/

section Items

variable {ι : Type} {read : ι → Except Error (String × String)} {items : List ι} {item : ι}
  {e : Error}

/-- Sets what one item after another is read as. -/
def setAll (read : ι → Except Error (String × String)) (table : OptionTable) (items : List ι) :
    Except Error OptionTable :=
  items.foldlM (fun table item => do
    let (name, value) ← read item
    return table.set name value) table

/-- The first item that cannot be read fails in this way. -/
def FirstFails (read : ι → Except Error (String × String)) (items : List ι) (e : Error) : Prop :=
  ∃ before item after, items = before ++ item :: after ∧
    (∀ earlier ∈ before, ∃ entry, read earlier = .ok entry) ∧ read item = .error e

/-- The last item that gives this name a value gives it this one. -/
def LastGives (gives : ι → String → String → Prop) (items : List ι) (name value : String) : Prop :=
  ∃ before item after, items = before ++ item :: after ∧ gives item name value ∧
    ∀ later ∈ after, ∀ v, ¬ gives later name v

/-- The value that an item gives to a name, if it is read as that name. -/
def given? (read : ι → Except Error (String × String)) (name : String) (item : ι) : Option String :=
  match read item with
  | .ok (n, v) => if n = name then some v else none
  | .error _ => none

theorem given?_eq_some_iff :
    given? read name item = some value ↔ read item = .ok (name, value) := by
  unfold given?
  split
  · next n v hread =>
      rw [hread]
      simp
  · next e hread =>
      rw [hread]
      simp

theorem findSome?_eq_some_iff_lastGives {gives : ι → String → String → Prop}
    (reads : ∀ {item name value}, read item = .ok (name, value) ↔ gives item name value) :
    items.reverse.findSome? (given? read name) = some value ↔ LastGives gives items name value := by
  have hsome {item value} : given? read name item = some value ↔ gives item name value :=
    given?_eq_some_iff.trans reads
  have hnone {item} : given? read name item = none ↔ ∀ v, ¬ gives item name v := by
    simp only [Option.eq_none_iff_forall_ne_some, ne_eq, hsome]
  rw [List.findSome?_eq_some_iff]
  constructor
  · rintro ⟨after, item, before, hitems, hgives, hafter⟩
    rw [List.reverse_eq_iff, List.reverse_append, List.reverse_cons, List.append_assoc] at hitems
    refine ⟨before.reverse, item, after.reverse, hitems, hsome.1 hgives, ?_⟩
    intro later hlater
    exact hnone.1 (hafter later (List.mem_reverse.1 hlater))
  · rintro ⟨before, item, after, rfl, hgives, hafter⟩
    refine ⟨after.reverse, item, before.reverse, by simp, hsome.2 hgives, ?_⟩
    intro later hlater
    exact hnone.2 (hafter later (List.mem_reverse.1 hlater))

@[simp] theorem setAll_nil (table : OptionTable) : setAll read table [] = .ok table := rfl

theorem setAll_cons_of_ok (hread : read item = .ok (name, value)) (table : OptionTable)
    (items : List ι) :
    setAll read table (item :: items) = setAll read (table.set name value) items := by
  rw [setAll, List.foldlM_cons, hread]
  rfl

theorem setAll_cons_of_error (hread : read item = .error e) (table : OptionTable) (items : List ι) :
    setAll read table (item :: items) = .error e := by
  rw [setAll, List.foldlM_cons, hread]
  rfl

theorem firstFails_cons : FirstFails read (item :: items) e ↔
    read item = .error e ∨ (∃ entry, read item = .ok entry) ∧ FirstFails read items e := by
  constructor
  · rintro ⟨before, failing, after, hsplit, hbefore, hfailing⟩
    cases before with
    | nil =>
        cases hsplit
        exact .inl hfailing
    | cons first before =>
        cases hsplit
        obtain ⟨hfirst, hrest⟩ := List.forall_mem_cons.1 hbefore
        exact .inr ⟨hfirst, before, failing, after, rfl, hrest, hfailing⟩
  · rintro (hfailing | ⟨hitem, before, failing, after, rfl, hbefore, hfailing⟩)
    · exact ⟨[], item, items, rfl, nofun, hfailing⟩
    · exact ⟨item :: before, failing, after, rfl, List.forall_mem_cons.2 ⟨hitem, hbefore⟩, hfailing⟩

theorem setAll_congr {read' : ι → Except Error (String × String)}
    (same : ∀ item ∈ items, read item = read' item) (table : OptionTable) :
    setAll read table items = setAll read' table items := by
  induction items generalizing table with
  | nil => rfl
  | cons item rest ih =>
      obtain ⟨hitem, hrest⟩ := List.forall_mem_cons.1 same
      cases hread : read item with
      | error e => rw [setAll_cons_of_error hread, setAll_cons_of_error (hitem.symm.trans hread)]
      | ok entry =>
          rw [setAll_cons_of_ok hread, setAll_cons_of_ok (hitem.symm.trans hread), ih hrest]

/-- Reading fails as the first item that cannot be read does. -/
theorem setAll_eq_error_iff : setAll read table items = .error e ↔ FirstFails read items e := by
  induction items generalizing table with
  | nil => simp [FirstFails]
  | cons item rest ih =>
      rw [firstFails_cons]
      cases hread : read item with
      | error e' => simp [setAll_cons_of_error hread]
      | ok entry => simp [setAll_cons_of_ok hread, ih]

/-- Reading succeeds where every item can be read. -/
theorem exists_setAll_iff : (∃ table', setAll read table items = .ok table') ↔
    ∀ item ∈ items, ∃ entry, read item = .ok entry := by
  induction items generalizing table with
  | nil => simp
  | cons item rest ih =>
      cases hread : read item with
      | error e => simp [setAll_cons_of_error hread, hread]
      | ok entry =>
          rw [setAll_cons_of_ok hread, ih, List.forall_mem_cons]
          exact ⟨fun hrest => ⟨⟨entry, hread⟩, hrest⟩, And.right⟩

/-- Reading fails where an item cannot be read. -/
theorem exists_setAll_eq_error_iff : (∃ e, setAll read table items = .error e) ↔
    ∃ item ∈ items, ∃ e, read item = .error e := by
  constructor
  · rintro ⟨e, hfails⟩
    obtain ⟨before, item, after, rfl, -, hitem⟩ := setAll_eq_error_iff.1 hfails
    exact ⟨item, by simp, e, hitem⟩
  · rintro ⟨item, hmem, e, hitem⟩
    cases hresult : setAll read table items with
    | error e' => exact ⟨e', rfl⟩
    | ok table' =>
        obtain ⟨entry, hentry⟩ := exists_setAll_iff.1 ⟨table', hresult⟩ item hmem
        cases hitem.symm.trans hentry

/-- The last item that gives a name its value counts, and what stood in the table before only where
there is none. -/
theorem get?_setAll (h : setAll read table items = .ok table') (name : String) :
    table'.get? name = (items.reverse.findSome? (given? read name)).or (table.get? name) := by
  -- the table generalises, as the items behind the first are set on top of what the first has set
  induction items generalizing table with
  | nil =>
      cases h
      rfl
  | cons item rest ih =>
      cases hread : read item with
      | error e =>
          rw [setAll_cons_of_error hread] at h
          cases h
      | ok entry =>
          rw [setAll_cons_of_ok hread] at h
          rw [ih h, get?_set, List.reverse_cons, List.findSome?_append, Option.or_assoc]
          congr 1
          by_cases hname : name = entry.1
          · simp [given?, hread, hname]
          · simp [given?, hread, hname, Ne.symm hname]

end Items

/-! ## Lists of pairs -/

theorem addPairs_eq_setAll (table : OptionTable) (pairs : List String) :
    table.addPairs pairs = setAll parsePair table pairs := by
  induction pairs generalizing table with
  | nil => rfl
  | cons pair rest ih =>
      unfold addPairs
      split
      · next n v hread => rw [setAll_cons_of_ok hread, ih]
      · next e hread => rw [setAll_cons_of_error hread]

variable {pairs pairs' : List String} {table'' : OptionTable}

theorem ofPairs_eq_setAll (pairs : List String) : ofPairs pairs = setAll parsePair empty pairs :=
  addPairs_eq_setAll empty pairs

theorem get?_ofPairs (read : ofPairs pairs = .ok table) (name : String) :
    table.get? name = pairs.reverse.findSome? (given? parsePair name) := by
  rw [ofPairs_eq_setAll] at read
  rw [get?_setAll read]
  exact Option.or_none

/-- In a table that was read, the last pair with a name decides. -/
theorem get?_ofPairs_eq_some_iff (read : ofPairs pairs = .ok table) :
    table.get? name = some value ↔ LastGives Sets pairs name value := by
  rw [get?_ofPairs read, findSome?_eq_some_iff_lastGives parsePair_eq_ok_iff]

theorem get?_ofPairs_eq_none_iff (read : ofPairs pairs = .ok table) :
    table.get? name = none ↔ ¬ ∃ pair ∈ pairs, ∃ value, Sets pair name value := by
  rw [get?_ofPairs read, List.findSome?_eq_none_iff]
  simp only [List.mem_reverse, Option.eq_none_iff_forall_ne_some, ne_eq, given?_eq_some_iff,
    parsePair_eq_ok_iff, not_exists, not_and]

/-- Every entry of a table that was read comes from a pair. -/
theorem exists_pair_of_mem (read : ofPairs pairs = .ok table)
    (mem : (name, value) ∈ table.entries) :
    ∃ pair ∈ pairs, Sets pair name value := by
  rw [← get?_eq_some_iff, get?_ofPairs_eq_some_iff read] at mem
  obtain ⟨before, pair, after, rfl, hpair, -⟩ := mem
  exact ⟨pair, by simp, hpair⟩

/-! ## Merging -/

/-- Merging is setting the entries in their order. -/
theorem setAll_entries (table other : OptionTable) :
    setAll .ok table other.entries = .ok (table.merge other) := by
  unfold merge
  generalize other.entries = entries
  induction entries generalizing table with
  | nil => rfl
  | cons entry rest ih => exact (setAll_cons_of_ok rfl table rest).trans (ih _)

/-- Look-up in a merged table: the right table takes precedence. -/
theorem get?_merge (table other : OptionTable) (name : String) :
    (table.merge other).get? name = (other.get? name).or (table.get? name) := by
  rw [get?_setAll (setAll_entries table other)]
  congr 1
  ext value
  have hreads {entry : String × String} {n v : String} :
      (.ok entry : Except Error (String × String)) = .ok (n, v) ↔ entry = (n, v) :=
    Iff.of_eq (Except.ok.injEq _ _)
  rw [findSome?_eq_some_iff_lastGives hreads, get?_eq_some_iff]
  constructor
  · rintro ⟨before, entry, after, hsplit, rfl, -⟩
    rw [hsplit]
    simp
  · -- no entry behind it has the same name
    intro hmem
    obtain ⟨before, after, hsplit⟩ := List.append_of_mem hmem
    refine ⟨before, (name, value), after, hsplit, rfl, ?_⟩
    rintro later hlater v rfl
    have hincreasing := other.increasing
    rw [hsplit, List.pairwise_append, List.pairwise_cons] at hincreasing
    exact String.lt_irrefl name (hincreasing.2.1.1 (name, v) hlater)

theorem merge_assoc (table table' table'' : OptionTable) :
    (table.merge table').merge table'' = table.merge (table'.merge table'') := by
  apply ext_get?
  intro name
  rw [get?_merge, get?_merge, get?_merge, get?_merge, Option.or_assoc]

theorem merge_self (table : OptionTable) : table.merge table = table := by
  apply ext_get?
  intro name
  rw [get?_merge, Option.or_self]

theorem merge_empty (table : OptionTable) : table.merge empty = table :=
  rfl

theorem empty_merge (table : OptionTable) : empty.merge table = table := by
  apply ext_get?
  intro name
  rw [get?_merge]
  exact Option.or_none

/-! ## Lists of pairs with the same table -/

/-- Pairs are read as the table that the last of them with each name makes. -/
theorem ofPairs_eq_ok (readable : ∀ pair ∈ pairs, ∃ entry, parsePair pair = .ok entry)
    (last : ∀ name, pairs.reverse.findSome? (given? parsePair name) = table.get? name) :
    ofPairs pairs = .ok table := by
  obtain ⟨made, hmade⟩ : ∃ made, setAll parsePair empty pairs = .ok made :=
    exists_setAll_iff.2 readable
  rw [← ofPairs_eq_setAll] at hmade
  rw [hmade, Except.ok.injEq]
  apply ext_get?
  intro name
  rw [get?_ofPairs hmade, last]

theorem readable_of_ofPairs (read : ofPairs pairs = .ok table) :
    ∀ pair ∈ pairs, ∃ entry, parsePair pair = .ok entry := by
  rw [ofPairs_eq_setAll] at read
  exact exists_setAll_iff.1 ⟨table, read⟩

/-- Concatenated pairs are read as merged tables. -/
theorem ofPairs_append (read : ofPairs pairs = .ok table) (read' : ofPairs pairs' = .ok table') :
    ofPairs (pairs ++ pairs') = .ok (table.merge table') := by
  refine ofPairs_eq_ok
    (List.forall_mem_append.2 ⟨readable_of_ofPairs read, readable_of_ofPairs read'⟩) ?_
  intro name
  rw [get?_merge, get?_ofPairs read, get?_ofPairs read',
    List.reverse_append, List.findSome?_append]

/-- Whether a pair is read as this name. -/
def isFor (name pair : String) : Bool :=
  (given? parsePair name pair).isSome

/-- The pairs of each name come in the same order. -/
def SameOrder (pairs pairs' : List String) : Prop :=
  ∀ name, pairs.filter (isFor name) = pairs'.filter (isFor name)

/-- No two pairs set one name. -/
def NamesDiffer (pairs : List String) : Prop :=
  pairs.Pairwise fun pair pair' =>
    ∀ name value value', Sets pair name value → ¬ Sets pair' name value'

/-- The value of a name depends on the pairs with this name only. -/
theorem findSome?_filter_isFor (name : String) (pairs : List String) :
    (pairs.filter (isFor name)).findSome? (given? parsePair name) =
      pairs.findSome? (given? parsePair name) := by
  induction pairs with
  | nil => rfl
  | cons pair rest ih =>
      cases hgiven : given? parsePair name pair with
      | none =>
          have hfor : ¬ isFor name pair = true := by simp [isFor, hgiven]
          rw [List.filter_cons_of_neg hfor, List.findSome?_cons, hgiven, ih]
      | some value =>
          have hfor : isFor name pair = true := by simp [isFor, hgiven]
          rw [List.filter_cons_of_pos hfor, List.findSome?_cons, List.findSome?_cons, hgiven]

theorem ofPairs_perm (read : ofPairs pairs = .ok table) (perm : pairs.Perm pairs')
    (same : SameOrder pairs pairs') : ofPairs pairs' = .ok table := by
  refine ofPairs_eq_ok (fun pair hpair => readable_of_ofPairs read pair (perm.mem_iff.2 hpair)) ?_
  intro name
  rw [get?_ofPairs read, ← findSome?_filter_isFor name pairs.reverse,
    ← findSome?_filter_isFor name pairs'.reverse, List.filter_reverse,
      List.filter_reverse, same name]

/-- Where no two pairs have one name, there is no order to keep. -/
theorem NamesDiffer.sameOrder (differ : NamesDiffer pairs) (perm : pairs.Perm pairs') :
    SameOrder pairs pairs' := by
  intro name
  have hperm := perm.filter (isFor name)
  have hdiffer := differ.filter (isFor name)
  have hsets : ∀ pair ∈ pairs.filter (isFor name), ∃ value, Sets pair name value := by
    intro pair hpair
    obtain ⟨value, hvalue⟩ := Option.isSome_iff_exists.1 (List.mem_filter.1 hpair).2
    exact ⟨value, parsePair_eq_ok_iff.1 (given?_eq_some_iff.1 hvalue)⟩
  -- one pair at most has the name
  match hfound : pairs.filter (isFor name) with
  | [] =>
      rw [hfound] at hperm
      exact hperm.nil_eq
  | [pair] =>
      rw [hfound] at hperm
      exact List.singleton_perm.1 hperm
  | pair :: pair' :: rest =>
      rw [hfound] at hdiffer hsets
      obtain ⟨value, hvalue⟩ := hsets pair (by simp)
      obtain ⟨value', hvalue'⟩ := hsets pair' (by simp)
      exact absurd hvalue' ((List.pairwise_cons.1 hdiffer).1 pair' (by simp) _ _ _ hvalue)

/-! ## Tables that were read -/

/-- The names are keys, in byte order, and no value has white space at an end. -/
structure IsNormal (table : OptionTable) : Prop where
  keys : ∀ name ∈ table.names, IsKey name
  increasing : table.names.Pairwise fun a b => Utf8.encode a < Utf8.encode b
  values : ∀ entry ∈ table.entries, Text.IsTight entry.2.toList

theorem isNormal_of_ofPairs (read : ofPairs pairs = .ok table) : table.IsNormal := by
  refine ⟨?_, table.names_increasing, ?_⟩
  · intro name hname
    obtain ⟨⟨n, v⟩, hmem, rfl⟩ := List.mem_map.1 hname
    obtain ⟨pair, -, hpair⟩ := exists_pair_of_mem read hmem
    exact hpair.isKey
  · rintro ⟨n, v⟩ hmem
    obtain ⟨pair, -, hpair⟩ := exists_pair_of_mem read hmem
    exact hpair.isTight

/-- The entries as pairs. -/
def render (table : OptionTable) : List String :=
  table.entries.map fun entry => entry.1 ++ "=" ++ entry.2

theorem ofPairs_render (normal : table.IsNormal) :
    ofPairs table.render = .ok table := by
  have hentry : ∀ entry ∈ table.entries, parsePair (entry.1 ++ "=" ++ entry.2) = .ok entry := by
    intro entry hentry
    exact parsePair_eq_ok_iff.2
      (sets_rendered (normal.keys _ (List.mem_map_of_mem hentry)) (normal.values _ hentry))
  -- the pairs set what merging into the empty table sets
  calc ofPairs table.render
    _ = setAll (fun entry => parsePair (entry.1 ++ "=" ++ entry.2)) empty table.entries := by
        rw [ofPairs_eq_setAll, render, setAll, List.foldlM_map]
        rfl
    _ = setAll .ok empty table.entries := setAll_congr hentry empty
    _ = .ok (empty.merge table) := setAll_entries empty table
    _ = .ok table := by rw [empty_merge]

/-! ## The laws of tables -/

/-- **Reading pairs is merging tables.** A pair is divided at its first `=`, its parts are trimmed
and the name is put into lower case. Concatenated lists of pairs are read as merged tables; merging
is associative and idempotent, with the empty table as its unit. Pairs may be permuted as long as
those of one name keep their order, and the last pair of a name counts. Reading fails if and only if
a pair cannot be read, with the failure of the first such pair. The table that is read is in normal
form, and reading inverts rendering. -/
theorem ofPairs_algebra :
    (∀ pair name value, parsePair pair = .ok (name, value) ↔ Sets pair name value) ∧
    (∀ pairs pairs' table table', ofPairs pairs = .ok table → ofPairs pairs' = .ok table' →
      ofPairs (pairs ++ pairs') = .ok (table.merge table')) ∧
    (∀ a b c : OptionTable, (a.merge b).merge c = a.merge (b.merge c)) ∧
    (∀ a : OptionTable, a.merge a = a ∧ a.merge empty = a ∧ empty.merge a = a) ∧
    (∀ pairs pairs' table, ofPairs pairs = .ok table → pairs.Perm pairs' →
      NamesDiffer pairs ∨ SameOrder pairs pairs' → ofPairs pairs' = .ok table) ∧
    (∀ pairs table name value, ofPairs pairs = .ok table →
      (table.get? name = some value ↔ LastGives Sets pairs name value)) ∧
    (∀ pairs, (∃ e, ofPairs pairs = .error e) ↔ ∃ pair ∈ pairs, ∃ e, parsePair pair = .error e) ∧
    (∀ pairs e, ofPairs pairs = .error e ↔ FirstFails parsePair pairs e) ∧
    ∀ pairs table, ofPairs pairs = .ok table →
      table.IsNormal ∧ ofPairs table.render = .ok table := by
  refine ⟨fun _ _ _ => parsePair_eq_ok_iff, fun _ _ _ _ => ofPairs_append,
    merge_assoc, ?_, ?_, fun _ _ _ _ => get?_ofPairs_eq_some_iff, ?_, ?_, ?_⟩
  · intro a
    exact ⟨merge_self a, merge_empty a, empty_merge a⟩
  · rintro pairs pairs' table read perm (differ | same)
    · exact ofPairs_perm read perm (differ.sameOrder perm)
    · exact ofPairs_perm read perm same
  · intro pairs
    rw [ofPairs_eq_setAll]
    exact exists_setAll_eq_error_iff
  · intro pairs e
    rw [ofPairs_eq_setAll, setAll_eq_error_iff]
  · intro pairs table read
    have hnormal := isNormal_of_ofPairs read
    exact ⟨hnormal, ofPairs_render hnormal⟩

/-- The later pair counts, though its name is spelled in another way and its value holds a `=`. -/
theorem ofPairs_algebra_spellings :
    ofPairs ([" Frame_Size = 10 ", "raw"] ++ ["FRAME_SIZE= a=b "]) =
        .ok (merge { entries := [("frame_size", "10"), ("raw", "true")] }
          { entries := [("frame_size", "a=b")] }) ∧
      LastGives Sets [" Frame_Size = 10 ", "raw"] "raw" "true" ∧
      ofPairs ["raw", " Frame_Size = 10 "] =
        .ok { entries := [("frame_size", "10"), ("raw", "true")] } ∧
      ofPairs ["frame_size=10", "raw=true"] =
        .ok { entries := [("frame_size", "10"), ("raw", "true")] } ∧
      ofPairs ["raw", "=x", ""] = .error (.configuration (.optionWithoutName "=x")) := by
  have hread : ofPairs [" Frame_Size = 10 ", "raw"] =
      .ok { entries := [("frame_size", "10"), ("raw", "true")] } := by decide +kernel
  have hread' : ofPairs ["FRAME_SIZE= a=b "] = .ok { entries := [("frame_size", "a=b")] } := by
    decide +kernel
  have hfirst : parsePair " Frame_Size = 10 " = .ok ("frame_size", "10") := by decide +kernel
  have hsecond : parsePair "raw" = .ok ("raw", "true") := by decide +kernel
  have hdiffer : NamesDiffer [" Frame_Size = 10 ", "raw"] := by
    refine List.pairwise_pair.2 ?_
    intro name value value' hname hname'
    rw [← parsePair_eq_ok_iff, hfirst, Except.ok.injEq, Prod.mk.injEq] at hname
    rw [← parsePair_eq_ok_iff, hsecond, Except.ok.injEq, Prod.mk.injEq] at hname'
    exact absurd (hname.1.trans hname'.1.symm) (by decide)
  have hfails : FirstFails parsePair ["raw", "=x", ""] (.configuration (.optionWithoutName "=x")) :=
    ⟨["raw"], "=x", [""], rfl,
      fun earlier h => ⟨_, List.mem_singleton.1 h ▸ hsecond⟩, by decide +kernel⟩
  obtain ⟨-, happend, -, -, hperm, hlast, -, hfirstFails, hnormal⟩ := ofPairs_algebra
  exact ⟨happend _ _ _ _ hread hread', (hlast _ _ _ _ hread).1 rfl,
    hperm _ _ _ hread (List.Perm.swap _ _ _) (.inl hdiffer), (hnormal _ _ hread).2,
    (hfirstFails _ _).2 hfails⟩

end OptionTable

end Transcode
