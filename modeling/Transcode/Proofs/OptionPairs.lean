import Mathlib.Data.List.TakeWhile
import Transcode.OptionTable
import Transcode.Proofs.Trimming
/-!
# Pairs of a name and a value

A pair divides at its first `=`, and white space around either part does not count
(`OptionTable.Sets`, `OptionTable.parsePair_eq_ok_iff`). So the part in front of the `=` alone
determines whether a pair can be read, and the name it sets (`OptionTable.NamedBy`). The name comes
out as a key, the value without white space at its ends; and a key with such a value, written as a
pair, is set as it is (`OptionTable.sets_rendered`).
-/

set_option autoImplicit false

namespace Transcode.OptionTable

open Text (trimChars isBlank IsGap IsTight)

variable {pair front back : List Char} {c : Char} {key value : String}

/-! ## Division -/

/-- The parts of a pair: a name in front of the first `=` and a value behind it, or a name alone
with the value `true`. -/
inductive Divides : List Char → List Char → List Char → Prop where
  | valued {front back : List Char} (first : '=' ∉ front) :
      Divides (front ++ '=' :: back) front back
  | bare {pair : List Char} (plain : '=' ∉ pair) : Divides pair pair "true".toList

/-- Every pair has its parts. -/
theorem exists_divides (pair : List Char) : ∃ front back, Divides pair front back := by
  by_cases hplain : '=' ∈ pair
  · obtain ⟨front, back, rfl, hfirst⟩ := List.eq_append_cons_of_mem hplain
    exact ⟨front, back, .valued hfirst⟩
  · exact ⟨pair, _, .bare hplain⟩

theorem divide_of_valued (first : '=' ∉ front) (back : List Char) :
    divide (front ++ '=' :: back) = (trimChars front, trimChars back) := by
  have hfront : ∀ c ∈ front, decide (c ≠ '=') = true :=
    fun c hc => decide_eq_true fun heq => first (heq ▸ hc)
  have hdrop : (front ++ '=' :: back).dropWhile (· ≠ '=') = '=' :: back := by
    rw [List.dropWhile_append_of_pos hfront, List.dropWhile_cons_of_neg (by decide)]
  have htake : (front ++ '=' :: back).takeWhile (· ≠ '=') = front := by
    rw [List.takeWhile_append_of_pos hfront, List.takeWhile_cons_of_neg (by decide),
      List.append_nil]
  rw [divide, hdrop, htake]

theorem divide_of_bare (plain : '=' ∉ pair) : divide pair = (pair, "true".toList) := by
  have hdrop : pair.dropWhile (· ≠ '=') = [] :=
    List.dropWhile_eq_nil_iff.2 fun c hc => decide_eq_true fun heq => plain (heq ▸ hc)
  rw [divide, hdrop]

/-- White space around the whole pair stands around one of its parts, so it goes with them. -/
theorem divide_trimChars (divided : Divides pair front back) :
    divide (trimChars pair) = (trimChars front, trimChars back) := by
  cases divided with
  | valued hfirst =>
      obtain ⟨gap, hfront, hblank, hhead⟩ := Text.exists_gap front
      obtain ⟨gap', hback, hblank', hlast⟩ := Text.exists_gap back.reverse
      generalize front.dropWhile isBlank = front' at hfront hhead
      generalize back.reverse.dropWhile isBlank = back' at hback hlast
      rw [List.reverse_eq_iff, List.reverse_append] at hback
      subst hfront hback
      have hblank'' : IsGap gap'.reverse := fun c hc => hblank' c (List.mem_reverse.1 hc)
      -- the `=` keeps the two ends apart, also where nothing stands on one side of it
      have htight : IsTight (front' ++ '=' :: back'.reverse) := by
        constructor
        · intro c hc
          cases front' with
          | nil =>
              cases hc
              decide
          | cons d rest => exact hhead c hc
        · intro c hc
          rw [List.getLast?_append, List.getLast?_cons, List.getLast?_reverse] at hc
          cases back' with
          | nil =>
              cases hc
              decide
          | cons d rest =>
              cases hc
              exact hlast d rfl
      have htrim := Text.trimChars_eq hblank htight hblank''
      rw [List.append_assoc, List.cons_append, ← List.append_assoc] at htrim
      rw [htrim, divide_of_valued (fun h => hfirst (List.mem_append_right _ h)),
        Text.trimChars_gap_append hblank, Text.trimChars_append_gap _ hblank'']
  | bare hplain =>
      obtain ⟨gap, gap', hpair, -, -, -⟩ := Text.exists_gaps pair
      have htrue : trimChars "true".toList = "true".toList := by decide
      have hmem : '=' ∉ trimChars pair := by
        intro h
        apply hplain
        rw [hpair]
        exact List.mem_append_right _ (List.mem_append_left _ h)
      rw [divide_of_bare hmem, htrue]

/-! ## Keys -/

/-- A character that a name in lower case may hold. -/
def isKeyChar (c : Char) : Bool :=
  c.isLower || c.isDigit || c == '_' || c == '-'

/-- A name in lower case: letters, digits, `_` and `-`, at least one of them. -/
structure IsKey (name : String) : Prop where
  ne_empty : name ≠ ""
  chars : ∀ c ∈ name.toList, isKeyChar c = true

/-- The part in front of the `=` denotes this option. -/
structure NamedBy (front : List Char) (key : String) : Prop where
  ne_nil : trimChars front ≠ []
  chars : ∀ c ∈ trimChars front, isNameChar c = true
  key_eq : key = Text.lower (String.ofList (trimChars front))

theorem isKeyChar_iff : isKeyChar c = true ↔
    (97 ≤ c.toNat ∧ c.toNat ≤ 122) ∨ (48 ≤ c.toNat ∧ c.toNat ≤ 57) ∨ c.toNat = 95 ∨
      c.toNat = 45 := by
  have hdigit : c.isDigit = true ↔ 48 ≤ c.toNat ∧ c.toNat ≤ 57 := by
    rw [Char.isDigit, Bool.and_eq_true, decide_eq_true_eq, decide_eq_true_eq]
    rfl
  have hline : c = '_' ↔ c.toNat = 95 := Char.toNat_inj.symm
  have hhyphen : c = '-' ↔ c.toNat = 45 := Char.toNat_inj.symm
  simp only [isKeyChar, Bool.or_eq_true, beq_iff_eq, Text.isLower_iff, hdigit, hline,
    hhyphen, or_assoc]

/-- Besides the characters of a key a name may hold capital letters. -/
theorem isNameChar_iff : isNameChar c = true ↔
    (65 ≤ c.toNat ∧ c.toNat ≤ 90) ∨ isKeyChar c = true := by
  simp only [isNameChar, isKeyChar, Text.isAsciiAlphanum, Bool.or_eq_true,
    Text.isUpper_iff, or_assoc]

theorem isKeyChar_toLower (named : isNameChar c = true) : isKeyChar c.toLower = true := by
  rw [isNameChar_iff, isKeyChar_iff] at named
  rw [isKeyChar_iff]
  rcases Text.toLower_cases c with ⟨hother, hsame⟩ | ⟨hfrom, hto, hshift⟩
  · rw [hsame]
    exact named.resolve_left hother
  · omega

theorem isBlank_of_isKeyChar (char : isKeyChar c = true) : isBlank c = false := by
  rw [isKeyChar_iff] at char
  simp only [isBlank, Bool.or_eq_false_iff, Bool.and_eq_false_iff, decide_eq_false_iff_not,
    beq_eq_false_iff_ne]
  omega

theorem toLower_of_isKeyChar (char : isKeyChar c = true) : c.toLower = c := by
  rw [isKeyChar_iff] at char
  rcases Text.toLower_cases c with ⟨-, hsame⟩ | ⟨hfrom, hto, -⟩
  · exact hsame
  · omega

theorem NamedBy.isKey (named : NamedBy front key) : IsKey key := by
  obtain ⟨hne, hchars, rfl⟩ := named
  constructor
  · intro hempty
    have hmap := congrArg String.toList hempty
    simp only [Text.lower, String.toList_ofList] at hmap
    exact hne (List.map_eq_nil_iff.1 hmap)
  · intro c hc
    simp only [Text.lower, String.toList_ofList] at hc
    obtain ⟨d, hd, rfl⟩ := List.mem_map.1 hc
    exact isKeyChar_toLower (hchars d hd)

/-- A key names itself. -/
theorem IsKey.namedBy (isKey : IsKey key) : NamedBy key.toList key := by
  have htight : IsTight key.toList :=
    ⟨fun c hc => isBlank_of_isKeyChar (isKey.chars c (List.mem_of_head? hc)),
      fun c hc => isBlank_of_isKeyChar (isKey.chars c (List.mem_of_getLast? hc))⟩
  have hlower : key.toList.map Char.toLower = key.toList :=
    (List.map_congr_left fun c hc => toLower_of_isKeyChar (isKey.chars c hc)).trans (List.map_id _)
  constructor
  · rw [htight.trimChars_eq]
    exact fun hnil => isKey.ne_empty (String.toList_eq_nil_iff.1 hnil)
  · rw [htight.trimChars_eq]
    exact fun c hc => isNameChar_iff.2 (.inr (isKey.chars c hc))
  · rw [htight.trimChars_eq, Text.lower, String.toList_ofList, hlower, String.ofList_toList]

/-! ## Reading -/

variable {text : String}

/-- A pair sets a name, denoted by the part in front of the `=`, to a value, without the white space
at its ends. -/
def Sets (pair name value : String) : Prop :=
  ∃ front back, Divides pair.toList front back ∧ NamedBy front name ∧
    value = String.ofList (trimChars back)

theorem parsePair_of_divides (divided : Divides text.toList front back) :
    parsePair text = .ok (key, value) ↔
      NamedBy front key ∧ value = String.ofList (trimChars back) := by
  unfold parsePair
  simp only [Text.trim, String.toList_ofList, divide_trimChars divided]
  constructor
  · intro h
    split at h
    · cases h
    · next hne =>
        split at h
        · next hchars =>
            rw [Except.ok.injEq, Prod.mk.injEq] at h
            exact ⟨⟨hne, List.all_eq_true.1 hchars, h.1.symm⟩, h.2.symm⟩
        · cases h
  · rintro ⟨⟨hne, hchars, rfl⟩, rfl⟩
    rw [if_neg hne, if_pos (List.all_eq_true.2 hchars)]

/-- A pair is read as what it sets. -/
theorem parsePair_eq_ok_iff : parsePair text = .ok (key, value) ↔ Sets text key value := by
  constructor
  · intro hread
    obtain ⟨front, back, hdivided⟩ := exists_divides text.toList
    exact ⟨front, back, hdivided, (parsePair_of_divides hdivided).1 hread⟩
  · rintro ⟨front, back, hdivided, hset⟩
    exact (parsePair_of_divides hdivided).2 hset

theorem Sets.isKey (sets : Sets text key value) : IsKey key := by
  obtain ⟨front, back, -, hnamed, -⟩ := sets
  exact hnamed.isKey

theorem Sets.isTight (sets : Sets text key value) : IsTight value.toList := by
  obtain ⟨front, back, -, -, rfl⟩ := sets
  rw [String.toList_ofList]
  exact Text.isTight_trimChars back

theorem toList_rendered (name text : String) :
    (name ++ "=" ++ text).toList = name.toList ++ '=' :: text.toList := by
  simp

/-- A key with a value that has no white space at its ends is set as it is, whatever else the value
holds. -/
theorem sets_rendered (isKey : IsKey key) (tight : IsTight value.toList) :
    Sets (key ++ "=" ++ value) key value := by
  have hfirst : '=' ∉ key.toList := fun h => absurd (isKey.chars _ h) (by decide)
  refine ⟨key.toList, value.toList, ?_,
    isKey.namedBy, by rw [tight.trimChars_eq, String.ofList_toList]⟩
  rw [toList_rendered]
  exact .valued hfirst

/-- The part in front of the first `=` depends on the name only, also where the name itself holds
one. -/
theorem exists_divides_of_named (name : String) :
    ∃ front, ∀ text, ∃ back, Divides (name ++ "=" ++ text).toList front back := by
  simp only [toList_rendered]
  by_cases hmem : '=' ∈ name.toList
  · obtain ⟨front, back, hname, hfirst⟩ := List.eq_append_cons_of_mem hmem
    refine ⟨front, fun text => ⟨back ++ '=' :: text.toList, ?_⟩⟩
    rw [hname, List.append_assoc, List.cons_append]
    exact .valued hfirst
  · exact ⟨name.toList, fun text => ⟨text.toList, .valued hmem⟩⟩

/-- Which option a name with a value behind it sets does not depend on the value. -/
theorem key_eq_of_named {name text' key' value' : String}
    (sets : Sets (name ++ "=" ++ text) key value)
    (sets' : Sets (name ++ "=" ++ text') key' value') : key = key' := by
  obtain ⟨front, hdivided⟩ := exists_divides_of_named name
  obtain ⟨back, hback⟩ := hdivided text
  obtain ⟨back', hback'⟩ := hdivided text'
  rw [← parsePair_eq_ok_iff, parsePair_of_divides hback] at sets
  rw [← parsePair_eq_ok_iff, parsePair_of_divides hback'] at sets'
  rw [sets.1.key_eq, sets'.1.key_eq]

end Transcode.OptionTable
