import Transcode.Proofs.Jobs
/-!
# Values of options

The texts that denote numbers, truth values and format tags. Each reader has a case distinction: the
values it accepts, and the fault of every text it refuses.
-/

set_option autoImplicit false

namespace Transcode

/-! ## Numbers -/

namespace Decimal

/-- A text that writes a number: one or more digits, with or without a `+` in front. -/
def Writes (text : String) (n : Nat) : Prop :=
  ∃ digits, digits ≠ [] ∧ (∀ d ∈ digits, d.isDigit = true) ∧
    (text.toList = digits ∨ text.toList = '+' :: digits) ∧ Nat.ofDigitChars 10 digits 0 = n

variable {text : String} {limit n : Nat}

theorem digits?_eq_some_iff {cs : List Char} :
    digits? cs = some n ↔
      cs ≠ [] ∧ (∀ c ∈ cs, c.isDigit = true) ∧ Nat.ofDigitChars 10 cs 0 = n := by
  simp [digits?, ofDigits_eq, and_assoc]

theorem unsigned?_eq_some_iff : unsigned? text.toList = some n ↔ Writes text n := by
  constructor
  · intro h
    unfold unsigned? at h
    split at h
    · next cs hplus =>
        obtain ⟨hne, hdigits, hn⟩ := digits?_eq_some_iff.1 h
        exact ⟨cs, hne, hdigits, .inr hplus, hn⟩
    · obtain ⟨hne, hdigits, hn⟩ := digits?_eq_some_iff.1 h
      exact ⟨_, hne, hdigits, .inl rfl, hn⟩
  · rintro ⟨digits, hne, hdigits, htext | htext, hn⟩
    · rw [htext]
      unfold unsigned?
      split
      · -- a digit is no sign
        exact absurd (hdigits '+' List.mem_cons_self) (by decide)
      · exact digits?_eq_some_iff.2 ⟨hne, hdigits, hn⟩
    · rw [htext]
      exact digits?_eq_some_iff.2 ⟨hne, hdigits, hn⟩

theorem below?_eq_some_iff : below? limit text = some n ↔ Writes text n ∧ n < limit := by
  rw [below?, Option.filter_eq_some_iff, unsigned?_eq_some_iff, decide_eq_true_eq]

/-- A text writes one number at most. -/
theorem Writes.unique {n' : Nat} (writes : Writes text n) (writes' : Writes text n') : n = n' := by
  rw [← unsigned?_eq_some_iff] at writes writes'
  exact Option.some.inj (writes.symm.trans writes')

theorem below?_eq_none_iff : below? limit text = none ↔ ∀ n < limit, ¬ Writes text n := by
  rw [Option.eq_none_iff_forall_ne_some]
  refine forall_congr' fun n => ?_
  rw [Ne, below?_eq_some_iff]
  exact ⟨fun h hn hwrites => h ⟨hwrites, hn⟩, fun h hboth => h hboth.2 hboth.1⟩

end Decimal

/-! ## Options -/

namespace OptionTable

open Decimal

variable {table : OptionTable} {name text : String} {limit : Nat}

/-- The words for a truth value. -/
def words : Bool → List String
  | true => ["1", "true", "yes", "on"]
  | false => ["0", "false", "no", "off"]

/-- A word for a truth value, in any letter case. -/
def IsWord (b : Bool) (text : String) : Prop :=
  Text.lower text ∈ words b

theorem bool?_eq_some_iff {b : Bool} : bool? text = some b ↔ IsWord b text := by
  unfold bool? IsWord
  generalize Text.lower text = word
  cases b <;> split <;> simp_all [words]

/-- The words of the two truth values are disjoint. -/
theorem IsWord.unique {b b' : Bool} (word : IsWord b text) (word' : IsWord b' text) : b = b' := by
  rw [← bool?_eq_some_iff] at word word'
  exact Option.some.inj (word.symm.trans word')

/-- Case distinction for a truth value. -/
theorem getBool_cases (table : OptionTable) (name : String) :
    (table.get? name = none ∧ table.getBool name = .ok none) ∨
    (∃ text b, table.get? name = some text ∧ IsWord b text ∧ table.getBool name = .ok (some b)) ∨
    ∃ text, table.get? name = some text ∧ (∀ b, ¬ IsWord b text) ∧
      table.getBool name = .error (.configuration (.notBool name text)) := by
  cases hget : table.get? name with
  | none => exact .inl ⟨rfl, by simp only [getBool, hget]⟩
  | some text =>
      right
      cases hbool : bool? text with
      | some b =>
          exact .inl ⟨text, b, rfl, bool?_eq_some_iff.1 hbool, by simp only [getBool, hget, hbool]⟩
      | none =>
          refine .inr ⟨text, rfl, ?_, by simp only [getBool, hget, hbool]⟩
          intro b hword
          rw [← bool?_eq_some_iff, hbool] at hword
          cases hword

/-- A switch that is on. -/
def IsOn (table : OptionTable) (name : String) : Prop :=
  ∃ text, table.get? name = some text ∧ IsWord true text

theorem flag_eq_ok_true_iff : table.flag name = .ok true ↔ table.IsOn name := by
  unfold flag IsOn
  rcases getBool_cases table name with ⟨hget, hbool⟩ | ⟨text, b, hget, hword, hbool⟩ |
    ⟨text, hget, hword, hbool⟩
  · simp [hget, hbool, Except.map]
  · cases b with
    | true => simp [hget, hbool, hword, Except.map]
    | false =>
        have hoff : ¬ IsWord true text := fun h => Bool.noConfusion (h.unique hword)
        simp [hget, hbool, hoff, Except.map]
  · simp [hget, hbool, hword true, Except.map]

/-- Case distinction for a number. -/
theorem getBelow_cases (limit : Nat) (table : OptionTable) (name : String) :
    (table.get? name = none ∧ table.getBelow limit name = .ok none) ∨
    (∃ text n, table.get? name = some text ∧ Writes text n ∧ n < limit ∧
      table.getBelow limit name = .ok (some n)) ∨
    ∃ text, table.get? name = some text ∧ (∀ n < limit, ¬ Writes text n) ∧
      table.getBelow limit name = .error (.configuration (.notNumber name text)) := by
  cases hget : table.get? name with
  | none => exact .inl ⟨rfl, by simp only [getBelow, hget]⟩
  | some text =>
      right
      cases hbelow : below? limit text with
      | some n =>
          obtain ⟨hwrites, hlimit⟩ := below?_eq_some_iff.1 hbelow
          exact .inl ⟨text, n, rfl, hwrites, hlimit, by simp only [getBelow, hget, hbelow]⟩
      | none =>
          exact .inr ⟨text, rfl, below?_eq_none_iff.1 hbelow, by simp only [getBelow, hget, hbelow]⟩

theorem getBelow_eq_some_iff {n : Nat} (set : table.get? name = some text) :
    table.getBelow limit name = .ok (some n) ↔ Writes text n ∧ n < limit := by
  rcases getBelow_cases limit table name with ⟨hget, -⟩ | ⟨text', m, hget, hwrites, hlimit, hread⟩ |
    ⟨text', hget, hunwritten, hread⟩
  · cases hget.symm.trans set
  · obtain rfl := Option.some.inj (hget.symm.trans set)
    rw [hread, Except.ok.injEq, Option.some.injEq]
    refine ⟨?_, fun h => hwrites.unique h.1⟩
    rintro rfl
    exact ⟨hwrites, hlimit⟩
  · obtain rfl := Option.some.inj (hget.symm.trans set)
    rw [hread]
    refine iff_of_false (by simp) ?_
    rintro ⟨hwrites, hlimit⟩
    exact hunwritten n hlimit hwrites

/-- The faults of a number that must be positive and below a limit. -/
inductive NumberFault (limit : Nat) (name text : String) : ConfigurationFault → Prop where
  | unread (unwritten : ∀ n < limit, ¬ Writes text n) :
      NumberFault limit name text (.notNumber name text)
  | zero (written : Writes text 0) (room : 0 < limit) :
      NumberFault limit name text (.zeroOption name)

theorem NumberFault.not_writes {fault : ConfigurationFault} {n : Nat}
    (wrong : NumberFault limit name text fault) (positive : 0 < n) (less : n < limit) :
    ¬ Writes text n := by
  intro hwrites
  cases wrong with
  | unread hunwritten => exact hunwritten n less hwrites
  | zero hwritten => exact Nat.ne_of_gt positive (hwrites.unique hwritten)

theorem NumberFault.unique {fault fault' : ConfigurationFault}
    (wrong : NumberFault limit name text fault) (wrong' : NumberFault limit name text fault') :
    fault = fault' := by
  cases wrong with
  | unread hunwritten =>
      cases wrong' with
      | unread => rfl
      | zero hwritten hroom => exact absurd hwritten (hunwritten 0 hroom)
  | zero hwritten hroom =>
      cases wrong' with
      | unread hunwritten => exact absurd hwritten (hunwritten 0 hroom)
      | zero => rfl

/-- Case distinction for a number that must be positive. -/
theorem getPositive_cases (table : OptionTable) (name : String) (limit fallback : Nat) :
    (table.get? name = none ∧
      (table.getBelow limit name).bind (Job.positive name fallback) = .ok fallback) ∨
    (∃ text n, table.get? name = some text ∧ Writes text n ∧ 0 < n ∧ n < limit ∧
      (table.getBelow limit name).bind (Job.positive name fallback) = .ok n) ∨
    ∃ text fault, table.get? name = some text ∧ NumberFault limit name text fault ∧
      (table.getBelow limit name).bind
        (Job.positive name fallback) = .error (.configuration fault) := by
  rcases getBelow_cases limit table name with ⟨hget, hread⟩ |
    ⟨text, n, hget, hwrites, hlimit, hread⟩ |
    ⟨text, hget, hunwritten, hread⟩
  · exact .inl ⟨hget, by rw [hread]; rfl⟩
  · right
    cases n with
    | zero => exact .inr ⟨text, _, hget, .zero hwrites hlimit, by rw [hread]; rfl⟩
    | succ n => exact .inl ⟨text, n + 1, hget, hwrites, Nat.succ_pos n, hlimit, by rw [hread]; rfl⟩
  · exact .inr (.inr ⟨text, _, hget, .unread hunwritten, by rw [hread]; rfl⟩)

end OptionTable

/-! ## Format tags -/

namespace FormatTag

variable {text : String}

/-- A tag that an option may name: letters, digits and `_`. -/
def IsWritten (tag : FormatTag) : Prop :=
  tag.text.toList ≠ [] ∧ ∀ c ∈ tag.text.toList, isTagChar c = true

/-- The faults of a text that is no tag. -/
inductive Fault (text : String) : ConfigurationFault → Prop where
  | empty (blank : (ofText text).text.toList = []) : Fault text .emptyFormat
  | invalid (nonempty : (ofText text).text.toList ≠ []) (odd : ¬ (ofText text).IsWritten) :
      Fault text (.invalidFormat text)

theorem Fault.not_isWritten {fault : ConfigurationFault} (wrong : Fault text fault) :
    ¬ (ofText text).IsWritten := by
  cases wrong with
  | empty hblank => exact fun h => h.1 hblank
  | invalid _ hodd => exact hodd

theorem Fault.unique {fault fault' : ConfigurationFault} (wrong : Fault text fault)
    (wrong' : Fault text fault') : fault = fault' := by
  cases wrong with
  | empty hblank =>
      cases wrong' with
      | empty => rfl
      | invalid hnonempty => exact absurd hblank hnonempty
  | invalid hnonempty =>
      cases wrong' with
      | empty hblank => exact absurd hblank hnonempty
      | invalid => rfl

/-- Case distinction for a tag. -/
theorem parse_cases (text : String) :
    ((ofText text).IsWritten ∧ parse text = .ok (ofText text)) ∨
    ∃ fault, Fault text fault ∧ parse text = .error (.configuration fault) := by
  unfold parse
  by_cases hblank : (ofText text).text.toList = []
  · exact .inr ⟨_, .empty hblank, if_pos hblank⟩
  · simp only [hblank, if_false]
    cases hall : (ofText text).text.toList.all isTagChar with
    | true => exact .inl ⟨⟨hblank, List.all_eq_true.1 hall⟩, rfl⟩
    | false =>
        refine .inr ⟨_, .invalid hblank ?_, rfl⟩
        rintro ⟨-, hwritten⟩
        rw [List.all_eq_true.2 hwritten] at hall
        cases hall

end FormatTag

end Transcode
