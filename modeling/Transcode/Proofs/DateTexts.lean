import Transcode.Date
/-!
# Dates as text

The text of a date is its year, month and day in decimal, with hyphens between them. It is read back
(`Date.parse?_text`) where the year has neither a sign nor more than four digits; all other dates
have longer texts (`Date.length_text`). A text that is read as a date has no characters but digits,
blanks and signs (`Date.not_mem_of_parse?`).
-/

set_option autoImplicit false

namespace Transcode

namespace Decimal

theorem toNat_of_isDigit {c : Char} (digit : c.isDigit = true) : 48 ≤ c.toNat ∧ c.toNat ≤ 57 := by
  simpa [Char.isDigit, UInt32.le_iff_toNat_le] using digit

theorem ofDigits_eq (ds : List Char) : ofDigits ds = Nat.ofDigitChars 10 ds 0 := by
  simp only [ofDigits, Nat.ofDigitChars, digitValue, Nat.mul_comm]

theorem ofDigits_toDigits (n : Nat) : ofDigits (Nat.toDigits 10 n) = n := by
  rw [ofDigits_eq, Nat.ofDigitChars_ten_toDigits]

theorem toList_padded (width n : Nat) :
    (padded width n).toList =
      List.replicate (width - (Nat.toDigits 10 n).length) '0' ++ Nat.toDigits 10 n :=
  String.toList_ofList

theorem isDigit_of_mem_padded {width n : Nat} {c : Char} (mem : c ∈ (padded width n).toList) :
    c.isDigit = true := by
  rw [toList_padded, List.mem_append] at mem
  rcases mem with hzero | hdigit
  · rw [List.eq_of_mem_replicate hzero]
    rfl
  · exact Nat.isDigit_of_mem_toDigits (by decide) (by decide) hdigit

theorem le_length_padded (width n : Nat) : width ≤ (padded width n).toList.length := by
  rw [toList_padded, List.length_append, List.length_replicate]
  omega

/-- A number that fits in a width is padded to it. -/
theorem length_padded {width n : Nat} (fits : (Nat.toDigits 10 n).length ≤ width) :
    (padded width n).toList.length = width := by
  rw [toList_padded, List.length_append, List.length_replicate]
  omega

theorem length_toDigits_of_lt_hundred {n : Nat} (below : n < 100) :
    (Nat.toDigits 10 n).length ≤ 2 :=
  (Nat.length_toDigits_le_iff (by decide) (by decide)).2 below

theorem length_toDigits_of_lt_tenThousand {n : Nat} (below : n < 10000) :
    (Nat.toDigits 10 n).length ≤ 4 :=
  (Nat.length_toDigits_le_iff (by decide) (by decide)).2 below

/-- Zeros in front do not count. -/
theorem ofDigits_padded (width n : Nat) : ofDigits (padded width n).toList = n := by
  rw [toList_padded, ofDigits_eq, Nat.ofDigitChars_append, Nat.ofDigitChars_replicate_zero,
    Nat.mul_zero, Nat.ofDigitChars_ten_toDigits]

end Decimal

namespace Date

variable {cs rest : List Char} {n most : Nat} {year : Int} {date : Date}

/-! ## Texts that are read as dates -/

/-- A number is read from digits, as many as it may have or less. -/
theorem exists_digits_of_number? (read : number? most cs = some (n, rest)) :
    ∃ digits, cs = digits ++ rest ∧ digits ≠ [] ∧ (∀ c ∈ digits, c.isDigit = true) ∧
      digits.length ≤ most ∧ Decimal.ofDigits digits = n := by
  simp only [number?, Option.ite_none_left_eq_some, Option.some.injEq, Prod.mk.injEq] at read
  obtain ⟨hsome, hvalue, rfl⟩ := read
  have hfront : (cs.take most).takeWhile Char.isDigit <+: cs :=
    (List.takeWhile_prefix _).trans (List.take_prefix most cs)
  refine ⟨(cs.take most).takeWhile Char.isDigit, (List.prefix_iff_eq_append.1 hfront).symm, hsome,
    List.all_eq_true.1 List.all_takeWhile, ?_, hvalue⟩
  exact Nat.le_trans (List.takeWhile_prefix _).length_le (List.length_take_le most cs)

/-- A character with no place in a date: no digit, no blank and no sign. -/
def IsForeign (c : Char) : Prop :=
  c.isDigit = false ∧ Text.isBlank c = false ∧ c ≠ '+' ∧ c ≠ '-'

instance (c : Char) : Decidable (IsForeign c) :=
  inferInstanceAs (Decidable (_ ∧ _))

section Foreign

variable {c : Char}

theorem not_mem_of_blanks (foreign : IsForeign c) (plain : c ∉ cs.dropWhile Text.isBlank) :
    c ∉ cs := by
  rw [← List.takeWhile_append_dropWhile (p := Text.isBlank) (l := cs), List.mem_append]
  rintro (hblank | hrest)
  · have hisBlank := List.all_eq_true.1 List.all_takeWhile _ hblank
    rw [foreign.2.1] at hisBlank
    cases hisBlank
  · exact plain hrest

theorem not_mem_of_number? (foreign : IsForeign c) (read : number? most cs = some (n, rest))
    (plain : c ∉ rest) : c ∉ cs := by
  obtain ⟨digits, rfl, -, hdigits, -, -⟩ := exists_digits_of_number? read
  rw [List.mem_append]
  rintro (hmem | hmem)
  · cases (hdigits _ hmem).symm.trans foreign.1
  · exact plain hmem

theorem not_mem_of_year? (foreign : IsForeign c) (read : year? cs = some (year, rest))
    (plain : c ∉ rest) : c ∉ cs := by
  apply not_mem_of_blanks foreign
  rw [year?] at read
  split at read
  all_goals
    obtain ⟨⟨n, after⟩, hnumber, hyear⟩ := Option.map_eq_some_iff.1 read
    cases hyear
    have hrest := not_mem_of_number? foreign hnumber plain
  · next hsign => simp [hsign, hrest, foreign.2.2]
  · next hsign => simp [hsign, hrest, foreign.2.2]
  · exact hrest

theorem not_mem_of_part? (foreign : IsForeign c) (read : part? cs = some (n, rest))
    (plain : c ∉ rest) : c ∉ cs := by
  rw [part?.eq_def] at read
  split at read
  · have hblanks := not_mem_of_blanks foreign (not_mem_of_number? foreign read plain)
    simp [hblanks, foreign.2.2]
  · cases read

/-- No foreign character occurs in a text that is read as a date. -/
theorem not_mem_of_parse? (foreign : IsForeign c) (read : parse? cs = some date) : c ∉ cs := by
  simp only [parse?, Option.bind_eq_bind, Option.bind_eq_some_iff, Prod.exists] at read
  obtain ⟨year, rest, hyear, month, rest', hmonth, day, rest'', hday, hdate⟩ := read
  split at hdate
  · next hend =>
      have hplain : c ∉ rest'' := by simp [hend.1]
      exact not_mem_of_year? foreign hyear
        (not_mem_of_part? foreign hmonth (not_mem_of_part? foreign hday hplain))
  · cases hdate

end Foreign

theorem dot_not_mem_of_parse? (read : parse? cs = some date) : '.' ∉ cs :=
  not_mem_of_parse? (by decide) read

theorem toList_text (date : Date) :
    date.text.toList = (yearText date.year).toList ++
      '-' :: ((Decimal.padded 2 date.month).toList ++ '-' ::
        (Decimal.padded 2 date.day).toList) := by
  simp [text]

theorem yearText_of_mem (bounds : 0 ≤ year ∧ year ≤ 9999) :
    yearText year = Decimal.padded 4 year.natAbs := by
  rw [yearText, if_neg (by omega), if_neg (by omega)]

/-- A letter of the text of a date is a digit or a sign. -/
theorem cases_of_mem_text {c : Char} (mem : c ∈ date.text.toList) :
    c.isDigit = true ∨ c = '-' ∨ c = '+' := by
  have hyear : c ∈ (yearText date.year).toList → c.isDigit = true ∨ c = '-' ∨ c = '+' := by
    intro hmem
    simp only [yearText] at hmem
    split at hmem
    · rcases List.mem_cons.1 (String.toList_append ▸ hmem) with rfl | hdigit
      · exact .inr (.inl rfl)
      · exact .inl (Decimal.isDigit_of_mem_padded hdigit)
    · split at hmem
      · rcases List.mem_cons.1 (String.toList_append ▸ hmem) with rfl | hdigit
        · exact .inr (.inr rfl)
        · exact .inl (Decimal.isDigit_of_mem_padded hdigit)
      · exact .inl (Decimal.isDigit_of_mem_padded hmem)
  rw [toList_text, List.mem_append, List.mem_cons, List.mem_append, List.mem_cons] at mem
  rcases mem with hmem | rfl | hmem | rfl | hmem
  · exact hyear hmem
  · exact .inr (.inl rfl)
  · exact .inl (Decimal.isDigit_of_mem_padded hmem)
  · exact .inr (.inl rfl)
  · exact .inl (Decimal.isDigit_of_mem_padded hmem)

theorem dot_not_mem_text (date : Date) : '.' ∉ date.text.toList := by
  intro hdot
  have hletter := cases_of_mem_text hdot
  revert hletter
  decide

theorem lt_of_isValid (valid : date.isValid = true) : date.month < 100 ∧ date.day < 100 := by
  have hdays : daysIn date.year date.month ≤ 31 := by
    unfold daysIn
    repeat' split
    all_goals decide
  simp only [isValid, Bool.and_eq_true, decide_eq_true_eq] at valid
  omega

/-- The text of a date has ten letters if the year is written without a sign, and more otherwise. -/
theorem length_text (valid : date.isValid = true) :
    date.text.toList.length = 10 ↔ 0 ≤ date.year ∧ date.year ≤ 9999 := by
  obtain ⟨hmonth, hday⟩ := lt_of_isValid valid
  have hlength : date.text.toList.length = (yearText date.year).toList.length + 6 := by
    rw [toList_text]
    simp only [List.length_append, List.length_cons,
      Decimal.length_padded (Decimal.length_toDigits_of_lt_hundred hmonth),
      Decimal.length_padded (Decimal.length_toDigits_of_lt_hundred hday)]
  rw [hlength]
  constructor
  · -- a sign adds a letter to the four digits that are there at least
    intro hten
    have hdigits := Decimal.le_length_padded 4 date.year.natAbs
    simp only [yearText] at hten
    split at hten
    · rw [String.toList_append, List.length_append] at hten
      simp at hten
      omega
    · split at hten
      · rw [String.toList_append, List.length_append] at hten
        simp at hten
        omega
      · omega
  · intro hbounds
    have hbelow : date.year.natAbs < 10000 := by omega
    rw [yearText_of_mem hbounds,
      Decimal.length_padded (Decimal.length_toDigits_of_lt_tenThousand hbelow)]

/-! ## Reading back -/

/-- Digits are read as their number, if there is no room for more of them or none follows. -/
theorem number?_append {digits : List Char} (begun : digits ≠ [])
    (numeric : ∀ c ∈ digits, c.isDigit = true) (fits : digits.length ≤ most)
    (stops : digits.length = most ∨ ∀ c, rest.head? = some c → c.isDigit = false) :
    number? most (digits ++ rest) = some (Decimal.ofDigits digits, rest) := by
  have hdigits : ((digits ++ rest).take most).takeWhile Char.isDigit = digits := by
    rw [List.take_append, List.take_of_length_le fits, List.takeWhile_append_of_pos numeric]
    refine (congrArg _ ?_).trans (List.append_nil digits)
    rcases stops with hfull | hother
    · rw [hfull, Nat.sub_self, List.take_zero, List.takeWhile_nil]
    · cases rest with
      | nil => rw [List.take_nil, List.takeWhile_nil]
      | cons c cs =>
          cases hroom : most - digits.length with
          | zero => rw [List.take_zero, List.takeWhile_nil]
          | succ room =>
              rw [List.take_succ_cons, List.takeWhile_cons_of_neg]
              simp [hother c rfl]
  simp only [number?, hdigits, begun, if_false, List.drop_left]

/-- A padded number is read back whole. -/
theorem number?_padded {width : Nat} (positive : 0 < width)
    (fits : (Nat.toDigits 10 n).length ≤ width) :
    number? width ((Decimal.padded width n).toList ++ rest) = some (n, rest) := by
  have hlength := Decimal.length_padded fits
  have hsome : (Decimal.padded width n).toList ≠ [] := by
    rw [← List.length_pos_iff, hlength]
    exact positive
  rw [number?_append hsome (fun c => Decimal.isDigit_of_mem_padded) (Nat.le_of_eq hlength)
    (.inl hlength), Decimal.ofDigits_padded]

theorem isBlank_of_isDigit {c : Char} (digit : c.isDigit = true) : Text.isBlank c = false := by
  have hbounds := Decimal.toNat_of_isDigit digit
  simp only [Text.isBlank]
  grind

/-- A padded number begins with a digit. -/
theorem exists_cons_padded {width : Nat} (positive : 0 < width) (n : Nat) :
    ∃ c cs, (Decimal.padded width n).toList = c :: cs ∧ c.isDigit = true := by
  cases hlist : (Decimal.padded width n).toList with
  | nil =>
      have hlength := Decimal.le_length_padded width n
      rw [hlist, List.length_nil] at hlength
      omega
  | cons c cs => exact ⟨c, cs, rfl, Decimal.isDigit_of_mem_padded (hlist ▸ List.mem_cons_self)⟩

/-- No blank stands before a padded number. -/
theorem dropWhile_padded {width : Nat} (positive : 0 < width) (n : Nat) (rest : List Char) :
    ((Decimal.padded width n).toList ++ rest).dropWhile Text.isBlank =
      (Decimal.padded width n).toList ++ rest := by
  obtain ⟨c, cs, hlist, hdigit⟩ := exists_cons_padded positive n
  rw [hlist, List.cons_append, List.dropWhile_cons_of_neg]
  simp [isBlank_of_isDigit hdigit]

theorem part?_padded (below : n < 100) :
    part? ('-' :: ((Decimal.padded 2 n).toList ++ rest)) = some (n, rest) := by
  rw [part?, dropWhile_padded Nat.two_pos,
    number?_padded Nat.two_pos (Decimal.length_toDigits_of_lt_hundred below)]

/-- A year without a sign is read back. -/
theorem year?_padded (below : n < 10000) :
    year? ((Decimal.padded 4 n).toList ++ rest) = some ((n : Int), rest) := by
  have positive : 0 < 4 := by decide
  obtain ⟨c, cs, hlist, hdigit⟩ := exists_cons_padded positive n
  rw [year?, dropWhile_padded positive]
  split
  · next hminus =>
      rw [hlist] at hminus
      cases hminus
      cases hdigit
  · next hplus =>
      rw [hlist] at hplus
      cases hplus
      cases hdigit
  · rw [number?_padded positive (Decimal.length_toDigits_of_lt_tenThousand below), Option.map_some]

/-- A date whose year is written without a sign is read back from its text. -/
theorem parse?_text (valid : date.isValid = true) (bounds : 0 ≤ date.year ∧ date.year ≤ 9999) :
    parse? date.text.toList = some date := by
  obtain ⟨hmonth, hday⟩ := lt_of_isValid valid
  have hyear : year? date.text.toList = some (date.year,
      '-' :: ((Decimal.padded 2 date.month).toList ++ '-' ::
        (Decimal.padded 2 date.day).toList)) := by
    rw [toList_text, yearText_of_mem bounds, year?_padded (by omega), Int.natAbs_of_nonneg bounds.1]
  have hlast : part? ('-' :: (Decimal.padded 2 date.day).toList) = some (date.day, []) := by
    rw [← List.append_nil (Decimal.padded 2 date.day).toList]
    exact part?_padded hday
  simp only [parse?, hyear, part?_padded hmonth, hlast, Option.bind_eq_bind, Option.bind_some]
  exact if_pos ⟨trivial, valid⟩

end Date

end Transcode
