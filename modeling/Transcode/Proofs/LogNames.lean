import Transcode.Log.FileName
/-!
# Names of logs

The name of a log is taken apart: a stem, a dot, the ten bytes of a date and an ending
(`LogFile.parse?_eq_some_iff`). With `.gz` added, the name of a log is that of its packed form,
which is read as the same day (`LogFile.parse?_packed_iff`).
-/

set_option autoImplicit false

namespace Transcode

section Strip

variable {α : Type} [DecidableEq α] {front ending list rest : List α}

theorem stripStart?_eq_some_iff : stripStart? front list = some rest ↔ list = front ++ rest := by
  constructor
  · intro h
    induction front generalizing list with
    | nil =>
        cases list <;>
        · cases h
          rfl
    | cons a front ih =>
        cases list with
        | nil => cases h
        | cons b list =>
            rw [stripStart?] at h
            split at h
            · next hab => rw [hab, ih h, List.cons_append]
            · cases h
  · rintro rfl
    exact stripStart?_append front rest

theorem stripEnd?_eq_some_iff : stripEnd? ending list = some rest ↔ list = rest ++ ending := by
  rw [stripEnd?, Option.map_eq_some_iff]
  constructor
  · rintro ⟨back, hback, rfl⟩
    have hlist := congrArg List.reverse (stripStart?_eq_some_iff.1 hback)
    rwa [List.reverse_reverse, List.reverse_append, List.reverse_reverse] at hlist
  · rintro rfl
    refine ⟨rest.reverse, ?_, List.reverse_reverse rest⟩
    rw [List.reverse_append, stripStart?_append]

end Strip

namespace LogFile

variable {stem name : String} {date : Date} {packed : Bool} {rest middle : List Char}

/-- The ending of the name of a log. -/
def ending (packed : Bool) : String :=
  if packed then ".log.gz" else ".log"

/-- The last letter distinguishes packed logs. -/
theorem getLast?_append_ending (front : List Char) (packed : Bool) :
    (front ++ (ending packed).toList).getLast? = some (if packed then 'z' else 'g') := by
  cases packed <;> simp [ending, List.getLast?_append]

/-- Unique decomposition into a front and an ending. -/
theorem append_ending_inj {front front' : List Char} {packed' : Bool}
    (same : front ++ (ending packed).toList = front' ++ (ending packed').toList) :
    front = front' ∧ packed = packed' := by
  have hlast := congrArg List.getLast? same
  rw [getLast?_append_ending, getLast?_append_ending] at hlast
  have hpacked : packed = packed' := by
    cases packed <;> cases packed' <;> simp at hlast ⊢
  subst hpacked
  exact ⟨List.append_cancel_right same, rfl⟩

/-- The two endings exclude each other. -/
theorem middle?_eq_some_iff :
    middle? rest = some (middle, packed) ↔ rest = middle ++ (ending packed).toList := by
  unfold middle?
  constructor
  · intro h
    split at h
    · next hpacked =>
        cases h
        exact stripEnd?_eq_some_iff.1 hpacked
    · obtain ⟨_, hplain, hpair⟩ := Option.map_eq_some_iff.1 h
      cases hpair
      exact stripEnd?_eq_some_iff.1 hplain
  · rintro rfl
    cases packed with
    | true =>
        have hstrip : stripEnd? ".log.gz".toList (middle ++ (ending true).toList) = some middle :=
          stripEnd?_eq_some_iff.2 rfl
        rw [hstrip]
    | false =>
        have hstrip : stripEnd? ".log".toList (middle ++ (ending false).toList) = some middle :=
          stripEnd?_eq_some_iff.2 rfl
        split
        · -- the ending of packed logs is tried first, but their last letter is another one
          next other hpacked =>
            have hlast := congrArg List.getLast? (stripEnd?_eq_some_iff.1 hpacked)
            have hpacked' := getLast?_append_ending other true
            rw [getLast?_append_ending] at hlast
            cases hlast.trans hpacked'
        · rw [hstrip, Option.map_some]

/-- The name of a log: a stem, a dot, ten bytes that are read as a date, and an ending. -/
theorem parse?_eq_some_iff :
    parse? stem name = some (date, packed) ↔
      ∃ middle, name.toList = stem.toList ++ '.' :: (middle ++ (ending packed).toList) ∧
        (Utf8.encode (String.ofList middle)).length = 10 ∧ Date.parse? middle = some date := by
  simp only [parse?, Option.bind_eq_bind, Option.bind_eq_some_iff, stripStart?_eq_some_iff,
    Prod.exists, middle?_eq_some_iff]
  constructor
  · rintro ⟨rest, hname, middle, packed', rfl, h⟩
    split at h
    · cases h
    · next hlength =>
        obtain ⟨date', hdate, hpair⟩ := Option.bind_eq_some_iff.1 h
        cases hpair
        refine ⟨middle, ?_, Decidable.not_not.1 hlength, hdate⟩
        rw [hname, List.append_assoc, List.singleton_append]
  · rintro ⟨middle, hname, hlength, hdate⟩
    refine ⟨_, ?_, middle, packed, rfl, ?_⟩
    · rw [hname, List.append_assoc, List.singleton_append]
    · rw [if_neg (not_not_intro hlength), hdate]
      rfl

/-- The packed form of a log is read as the same day. -/
theorem parse?_packed_iff :
    parse? stem (name ++ ".gz") = some (date, true) ↔ parse? stem name = some (date, false) := by
  rw [parse?_eq_some_iff, parse?_eq_some_iff]
  have hending (middle : List Char) : stem.toList ++ '.' :: (middle ++ (ending true).toList) =
      (stem.toList ++ '.' :: (middle ++ (ending false).toList)) ++ ".gz".toList := by
    simp [ending]
  simp only [hending, String.toList_append, List.append_cancel_right_eq]

/-- A name with `.gz` added is not that of a log that is not packed. -/
theorem parse?_packed_ne : parse? stem (name ++ ".gz") ≠ some (date, false) := by
  rw [Ne, parse?_eq_some_iff]
  rintro ⟨middle, hname, -, -⟩
  have hlast := congrArg List.getLast? hname
  rw [List.append_cons, ← List.append_assoc, getLast?_append_ending, String.toList_append,
    List.getLast?_append] at hlast
  cases hlast

end LogFile

end Transcode
