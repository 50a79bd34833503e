import Mathlib.Algebra.Group.Nat.Defs
import Mathlib.Data.List.Induction
import Transcode.Proofs.LogStems
import Transcode.Proofs.Trimming
/-!
# Dates that are spelled in other ways

More is read as a date than is written for one. White space may stand before each number, the year
may have a sign, and numbers may be short: these are the spellings (`Date.Spelling`), and they are
all that is read (`Date.parse?_eq_some_iff`). The ten bytes that the name of a log has for its date
do not rule them out, as a sign or a blank takes the place of a missing digit. Without a sign and
without blanks, ten bytes leave one spelling only, and that is the text of the date
(`Date.Spelling.isPlain_iff`). So a name that is read as that of a log is the name written for it if
and only if its date is plain (`LogFile.parse?_as_written_if_plain`).
-/

set_option autoImplicit false

namespace Transcode

namespace Decimal

theorem digitValue_lt {c : Char} (digit : c.isDigit = true) : digitValue c < 10 := by
  have hbounds := toNat_of_isDigit digit
  have hzero : '0'.toNat = 48 := rfl
  rw [digitValue, hzero]
  omega

theorem digitValue_inj {c d : Char} (digit : c.isDigit = true) (digit' : d.isDigit = true)
    (same : digitValue c = digitValue d) : c = d := by
  have hbounds := toNat_of_isDigit digit
  have hbounds' := toNat_of_isDigit digit'
  have hzero : '0'.toNat = 48 := rfl
  rw [digitValue, digitValue, hzero] at same
  exact Char.toNat_inj.1 (by omega)

theorem ofDigits_concat (ds : List Char) (d : Char) :
    ofDigits (ds ++ [d]) = ofDigits ds * 10 + digitValue d := by
  simp [ofDigits]

theorem ofDigits_lt {ds : List Char} (numeric : ∀ c ∈ ds, c.isDigit = true) :
    ofDigits ds < 10 ^ ds.length := by
  induction ds using List.reverseRec with
  | nil => decide
  | append_singleton ds d ih =>
      have hrest := ih fun c hc => numeric c (List.mem_append_left _ hc)
      have hlast := digitValue_lt (numeric d (by simp))
      rw [ofDigits_concat, List.length_append, List.length_singleton, Nat.pow_succ]
      omega

/-- Injectivity of decimal values on digits of one length. -/
theorem ofDigits_inj {ds es : List Char} (numeric : ∀ c ∈ ds, c.isDigit = true)
    (numeric' : ∀ c ∈ es, c.isDigit = true) (long : ds.length = es.length)
    (same : ofDigits ds = ofDigits es) : ds = es := by
  induction ds using List.reverseRec generalizing es with
  | nil => exact (List.length_eq_zero_iff.1 long.symm).symm
  | append_singleton ds d ih =>
      cases es using List.reverseRec with
      | nil => simp at long
      | append_singleton es e =>
          -- the last digits are the remainders, and the others the quotients
          have hd := numeric d (by simp)
          have he := numeric' e (by simp)
          have hlast := digitValue_lt hd
          have hlast' := digitValue_lt he
          rw [ofDigits_concat, ofDigits_concat] at same
          obtain rfl := digitValue_inj hd he (by omega)
          rw [ih (fun c hc => numeric c (List.mem_append_left _ hc))
            (fun c hc => numeric' c (List.mem_append_left _ hc)) (by simpa using long) (by omega)]

/-- Digits are their value, padded to their length. -/
theorem padded_ofDigits {ds : List Char} (begun : ds ≠ []) (numeric : ∀ c ∈ ds, c.isDigit = true) :
    (padded ds.length (ofDigits ds)).toList = ds := by
  have hfits : (Nat.toDigits 10 (ofDigits ds)).length ≤ ds.length :=
    (Nat.length_toDigits_le_iff (by decide) (List.length_pos_iff.2 begun)).2 (ofDigits_lt numeric)
  exact ofDigits_inj (fun c => isDigit_of_mem_padded) numeric (length_padded hfits)
    (ofDigits_padded _ _)

end Decimal

namespace Date

open Decimal
open Text (IsGap)

variable {cs rest : List Char} {n : Nat} {year : Int} {date : Date}

/-! ## Spellings -/

/-- The signs of a year. -/
inductive Sign where
  | none
  | plus
  | minus
deriving DecidableEq

namespace Sign

def text : Sign → List Char
  | none => []
  | plus => ['+']
  | minus => ['-']

/-- The year that is meant by a number behind the sign. -/
def apply : Sign → Nat → Int
  | minus, n => -n
  | _, n => n

end Sign

/-- One digit or more. -/
def IsNumeral (cs : List Char) : Prop :=
  cs ≠ [] ∧ ∀ c ∈ cs, c.isDigit = true

/-- The parts of a text that is read as a date. Only a year that has a sign may have more than four
digits. -/
structure Spelling where
  beforeYear : List Char := []
  sign : Sign := .none
  year : List Char
  beforeMonth : List Char := []
  month : List Char
  beforeDay : List Char := []
  day : List Char
  gaps : IsGap beforeYear ∧ IsGap beforeMonth ∧ IsGap beforeDay
  numerals : IsNumeral year ∧ IsNumeral month ∧ IsNumeral day
  yearFits : sign = .none → year.length ≤ 4
  monthFits : month.length ≤ 2
  dayFits : day.length ≤ 2

namespace Spelling

def text (s : Spelling) : List Char :=
  s.beforeYear ++ (s.sign.text ++ (s.year ++
    '-' :: (s.beforeMonth ++ (s.month ++ '-' :: (s.beforeDay ++ s.day)))))

/-- The date that is meant, whether the calendar has it or not. -/
def meant (s : Spelling) : Date :=
  ⟨s.sign.apply (ofDigits s.year), ofDigits s.month, ofDigits s.day⟩

/-- Without white space and without a sign. -/
structure IsPlain (s : Spelling) : Prop where
  unsigned : s.sign = .none
  beforeYear : s.beforeYear = []
  beforeMonth : s.beforeMonth = []
  beforeDay : s.beforeDay = []

end Spelling

/-! ## Reading a spelling -/

/-- A numeral begins with a digit, which is neither blank nor a sign. -/
theorem IsNumeral.exists_cons (numeral : IsNumeral cs) :
    ∃ c tail, cs = c :: tail ∧ c.isDigit = true := by
  obtain ⟨hbegun, hnumeric⟩ := numeral
  cases cs with
  | nil => exact absurd rfl hbegun
  | cons c tail => exact ⟨c, tail, rfl, hnumeric c List.mem_cons_self⟩

theorem IsNumeral.isBlank_head (numeral : IsNumeral cs) {c : Char}
    (head : (cs ++ rest).head? = some c) : Text.isBlank c = false := by
  obtain ⟨d, tail, rfl, hdigit⟩ := numeral.exists_cons
  cases head
  exact isBlank_of_isDigit hdigit

/-- A month or a day: a hyphen, white space and one or two digits. -/
theorem exists_of_part? (read : part? cs = some (n, rest)) :
    ∃ gap digits, cs = '-' :: (gap ++ (digits ++ rest)) ∧ IsGap gap ∧ IsNumeral digits ∧
      digits.length ≤ 2 ∧ ofDigits digits = n := by
  rw [part?.eq_def] at read
  split at read
  · next behind =>
      obtain ⟨digits, hbehind, hbegun, hnumeric, hfits, hvalue⟩ := exists_digits_of_number? read
      obtain ⟨gap, hgap, hblank, -⟩ := Text.exists_gap behind
      exact ⟨gap, digits, by rw [← hbehind, ← hgap], hblank, ⟨hbegun, hnumeric⟩, hfits, hvalue⟩
  · cases read

/-- A number of two digits at most is read, if no other digit follows. -/
theorem part?_append {gap digits : List Char} (blank : IsGap gap) (numeral : IsNumeral digits)
    (fits : digits.length ≤ 2) (stops : ∀ c, rest.head? = some c → c.isDigit = false) :
    part? ('-' :: (gap ++ (digits ++ rest))) = some (ofDigits digits, rest) := by
  rw [part?, Text.dropWhile_gap blank fun _ => numeral.isBlank_head,
    number?_append numeral.1 numeral.2 fits (.inr stops)]

/-- A year: white space, a sign if there is one, and digits. -/
theorem exists_of_year? (read : year? cs = some (year, rest)) :
    ∃ gap sign digits, cs = gap ++ (Sign.text sign ++ (digits ++ rest)) ∧ IsGap gap ∧
      IsNumeral digits ∧ (sign = .none → digits.length ≤ 4) ∧
        sign.apply (ofDigits digits) = year := by
  obtain ⟨gap, hgap, hblank, -⟩ := Text.exists_gap cs
  rw [year?] at read
  split at read
  all_goals
    obtain ⟨⟨n, after⟩, hnumber, hyear⟩ := Option.map_eq_some_iff.1 read
    cases hyear
    obtain ⟨digits, hdigits, hbegun, hnumeric, hfits, rfl⟩ := exists_digits_of_number? hnumber
  · next hsign =>
      exact ⟨gap, .minus, digits, by rw [hgap, hsign, hdigits]; rfl, hblank, ⟨hbegun, hnumeric⟩,
        by simp, rfl⟩
  · next hsign =>
      exact ⟨gap, .plus, digits, by rw [hgap, hsign, hdigits]; rfl, hblank, ⟨hbegun, hnumeric⟩,
        by simp, rfl⟩
  · exact ⟨gap, .none, digits, by rw [hgap, hdigits]; rfl, hblank, ⟨hbegun, hnumeric⟩,
      fun _ => hfits, rfl⟩

theorem year?_append {gap digits : List Char} (sign : Sign) (blank : IsGap gap)
    (numeral : IsNumeral digits) (fits : sign = .none → digits.length ≤ 4)
    (stops : ∀ c, rest.head? = some c → c.isDigit = false) :
    year? (gap ++ (sign.text ++ (digits ++ rest))) = some (sign.apply (ofDigits digits), rest) := by
  have hsigned : number? (digits ++ rest).length (digits ++ rest) = some (ofDigits digits, rest) :=
    number?_append numeral.1 numeral.2 (by simp) (.inr stops)
  have hbehind : ∀ c, (sign.text ++ (digits ++ rest)).head? = some c → Text.isBlank c = false := by
    cases sign with
    | none => exact fun _ => numeral.isBlank_head
    | plus | minus =>
        rintro _ ⟨⟩
        decide
  rw [year?, Text.dropWhile_gap blank hbehind]
  cases sign with
  | plus | minus =>
      simp only [Sign.text, List.cons_append, List.nil_append, hsigned, Option.map_some]
      rfl
  | none =>
      obtain ⟨c, tail, hcons, hdigit⟩ := numeral.exists_cons
      simp only [Sign.text, List.nil_append]
      split
      · next hminus =>
          rw [hcons] at hminus
          cases hminus
          cases hdigit
      · next hplus =>
          rw [hcons] at hplus
          cases hplus
          cases hdigit
      · rw [number?_append numeral.1 numeral.2 (fits rfl) (.inr stops), Option.map_some]
        rfl

/-- The dates of the calendar that are spelled are read, and nothing else is. -/
theorem parse?_eq_some_iff :
    parse? cs = some date ↔ date.isValid = true ∧ ∃ s : Spelling, s.text = cs ∧ s.meant = date := by
  simp only [parse?, Option.bind_eq_bind, Option.bind_eq_some_iff, Prod.exists]
  constructor
  · rintro ⟨year, rest, hyear, month, rest', hmonth, day, rest'', hday, hdate⟩
    split at hdate
    · next hend =>
        cases hdate
        obtain ⟨hnil, hvalid⟩ := hend
        obtain ⟨gap, sign, digits, hcs, hgap, hdigits, hfits, rfl⟩ := exists_of_year? hyear
        obtain ⟨gap', digits', hrest, hgap', hdigits', hfits', rfl⟩ := exists_of_part? hmonth
        obtain ⟨gap'', digits'', hrest', hgap'', hdigits'', hfits'', rfl⟩ := exists_of_part? hday
        refine ⟨hvalid, ⟨gap, sign, digits, gap', digits', gap'', digits'', ⟨hgap, hgap', hgap''⟩,
          ⟨hdigits, hdigits', hdigits''⟩, hfits, hfits', hfits''⟩, ?_, rfl⟩
        rw [hcs, hrest, hrest', hnil, List.append_nil, Spelling.text]
    · cases hdate
  · rintro ⟨hvalid, s, rfl, rfl⟩
    have hhyphen (tail : List Char) : ∀ c, ('-' :: tail).head? = some c → c.isDigit = false := by
      rintro _ ⟨⟩
      rfl
    have hday : part? ('-' :: (s.beforeDay ++ s.day)) = some (ofDigits s.day, []) := by
      have hread : part? ('-' :: (s.beforeDay ++ (s.day ++ []))) = some (ofDigits s.day, []) :=
        part?_append s.gaps.2.2 s.numerals.2.2 s.dayFits (by simp)
      rwa [List.append_nil] at hread
    refine ⟨_, _, year?_append s.sign s.gaps.1 s.numerals.1 s.yearFits (hhyphen _), _, _,
      part?_append s.gaps.2.1 s.numerals.2.1 s.monthFits (hhyphen _), _, _, hday, ?_⟩
    exact if_pos ⟨rfl, hvalid⟩

/-! ## Ten bytes -/

namespace Spelling

variable {s : Spelling}

theorem IsPlain.text_eq (plain : s.IsPlain) :
    s.text = s.year ++ '-' :: (s.month ++ '-' :: s.day) := by
  obtain ⟨hsign, hyear, hmonth, hday⟩ := plain
  simp only [text, hsign, hyear, hmonth, hday, Sign.text, List.nil_append]

/-- Every letter of a plain spelling takes one byte. -/
theorem IsPlain.length_encode (plain : s.IsPlain) :
    (Utf8.encode (String.ofList s.text)).length = s.year.length + s.month.length +
      s.day.length + 2 := by
  have hnarrow : ∀ c ∈ s.text, c.utf8Size = 1 := by
    intro c hc
    rw [plain.text_eq, List.mem_append, List.mem_cons, List.mem_append, List.mem_cons] at hc
    rcases hc with hc | rfl | hc | rfl | hc
    · exact utf8Size_of_isDigit (s.numerals.1.2 c hc)
    · rfl
    · exact utf8Size_of_isDigit (s.numerals.2.1.2 c hc)
    · rfl
    · exact utf8Size_of_isDigit (s.numerals.2.2.2 c hc)
  rw [Utf8.length_encode_ofList hnarrow, plain.text_eq]
  simp only [List.length_append, List.length_cons]
  omega

/-- In ten bytes a plain spelling has no room for short numbers. -/
theorem IsPlain.lengths (plain : s.IsPlain)
    (ten : (Utf8.encode (String.ofList s.text)).length = 10) :
    s.year.length = 4 ∧ s.month.length = 2 ∧ s.day.length = 2 := by
  have hyear := s.yearFits plain.unsigned
  have hmonth := s.monthFits
  have hday := s.dayFits
  rw [plain.length_encode] at ten
  omega

theorem IsPlain.bounds (plain : s.IsPlain)
    (ten : (Utf8.encode (String.ofList s.text)).length = 10) :
    0 ≤ s.meant.year ∧ s.meant.year ≤ 9999 := by
  have hbelow := ofDigits_lt s.numerals.1.2
  rw [(plain.lengths ten).1] at hbelow
  have hyear : s.meant.year = (ofDigits s.year : Int) := by
    rw [meant, plain.unsigned]
    rfl
  omega

/-- The text of a date has neither white space nor, with four digits for the year, a sign. -/
theorem isPlain_of_text {date : Date} (bounds : 0 ≤ date.year ∧ date.year ≤ 9999)
    (same : s.text = date.text.toList) : s.IsPlain := by
  have hletters : ∀ c ∈ s.text, c.isDigit = true ∨ c = '-' ∨ c = '+' := by
    intro c hc
    rw [same] at hc
    exact cases_of_mem_text hc
  have hnogap {gap : List Char} (blank : IsGap gap) (part : gap ⊆ s.text) : gap = [] := by
    rw [List.eq_nil_iff_forall_not_mem]
    intro c hc
    have hblank := blank c hc
    rcases hletters c (part hc) with hdigit | rfl | rfl
    · rw [isBlank_of_isDigit hdigit] at hblank
      cases hblank
    · revert hblank
      decide
    · revert hblank
      decide
  have hyear : s.beforeYear = [] := hnogap s.gaps.1 (by simp [text])
  have hmonth : s.beforeMonth = [] := hnogap s.gaps.2.1 fun c hc => by simp [text, hc]
  have hday : s.beforeDay = [] := hnogap s.gaps.2.2 fun c hc => by simp [text, hc]
  refine ⟨?_, hyear, hmonth, hday⟩
  -- a sign would be the first letter, but that is a digit
  obtain ⟨c, tail, hcons, hdigit⟩ := exists_cons_padded (show 0 < 4 by decide) date.year.natAbs
  have hhead := congrArg List.head? same
  rw [toList_text, yearText_of_mem bounds, hcons, text, hyear] at hhead
  cases hsign : s.sign with
  | none => rfl
  | plus | minus =>
      rw [hsign] at hhead
      cases hhead
      cases hdigit

/-- **In ten bytes there is one plain spelling of a date, and it is the text of the date.** -/
theorem isPlain_iff (ten : (Utf8.encode (String.ofList s.text)).length = 10) :
    s.IsPlain ↔ s.text = s.meant.text.toList ∧ 0 ≤ s.meant.year ∧ s.meant.year ≤ 9999 := by
  constructor
  · intro plain
    have hbounds := plain.bounds ten
    refine ⟨?_, hbounds⟩
    obtain ⟨hyear, hmonth, hday⟩ := plain.lengths ten
    have hyear' := padded_ofDigits s.numerals.1.1 s.numerals.1.2
    have hmonth' := padded_ofDigits s.numerals.2.1.1 s.numerals.2.1.2
    have hday' := padded_ofDigits s.numerals.2.2.1 s.numerals.2.2.2
    have hvalue : s.meant.year.natAbs = ofDigits s.year := by
      rw [meant, plain.unsigned]
      rfl
    rw [hyear] at hyear'
    rw [hmonth] at hmonth'
    rw [hday] at hday'
    rw [plain.text_eq, toList_text, yearText_of_mem hbounds, hvalue, hyear', meant, hmonth', hday']
  · rintro ⟨hsame, hbounds⟩
    exact isPlain_of_text hbounds hsame

end Spelling

end Date

/-! ## Names of logs -/

namespace LogFile

open FileTree

variable {stem name : String} {date : Date} {packed : Bool}

/-- A name with a spelling for its date. -/
def Spells (stem name : String) (s : Date.Spelling) (packed : Bool) : Prop :=
  name.toList = stem.toList ++ '.' :: (s.text ++ (ending packed).toList) ∧
    (Utf8.encode (String.ofList s.text)).length = 10

/-- Absence of white space and signs in the date of a name. -/
def HasPlainDate (stem name : String) : Prop :=
  ∀ s packed, Spells stem name s packed → s.IsPlain

/-- The names that are read: those with a spelling of ten bytes for a date of the calendar. -/
theorem parse?_iff_spells :
    parse? stem name = some (date, packed) ↔
      date.isValid = true ∧ ∃ s : Date.Spelling, s.meant = date ∧ Spells stem name s packed := by
  simp only [parse?_eq_some_iff, Date.parse?_eq_some_iff]
  constructor
  · rintro ⟨_, hname, hten, hvalid, s, rfl, hdate⟩
    exact ⟨hvalid, s, hdate, hname, hten⟩
  · rintro ⟨hvalid, s, hdate, hname, hten⟩
    exact ⟨s.text, hname, hten, hvalid, s, rfl, hdate⟩

/-- A name that is read is the one that is written for the log, if its date is plain, and only then.
-/
theorem hasPlainDate_iff (read : parse? stem name = some (date, packed)) :
    HasPlainDate stem name ↔ name = fileName stem date packed ∧ 0 ≤ date.year ∧
      date.year ≤ 9999 := by
  constructor
  · intro hplain
    obtain ⟨-, s, rfl, hname, hten⟩ := parse?_iff_spells.1 read
    obtain ⟨hsame, hbounds⟩ := (s.isPlain_iff hten).1 (hplain s packed ⟨hname, hten⟩)
    refine ⟨String.toList_injective ?_, hbounds⟩
    rw [hname, toList_fileName, hsame]
  · rintro ⟨rfl, hbounds⟩ s packed' ⟨hname, hten⟩
    rw [toList_fileName] at hname
    have htext := (List.cons.inj (List.append_cancel_left hname)).2
    exact Date.Spelling.isPlain_of_text hbounds (append_ending_inj htext).1.symm

/-- **A name that is read as that of a log is the name written for it, unless its date has white
space or a sign in it.** The names that are read are those with a spelling of a date in ten bytes.
On those with a plain date reading is injective, and a clean-up leaves every other name with a plain
date alone that is not written for a log. -/
theorem parse?_as_written_if_plain (stem name : String) :
    (∀ date packed, parse? stem name = some (date, packed) ↔
      date.isValid = true ∧ ∃ s : Date.Spelling, s.meant = date ∧ Spells stem name s packed) ∧
    (∀ date packed, parse? stem name = some (date, packed) →
      (HasPlainDate stem name ↔
        name = fileName stem date packed ∧ 0 ≤ date.year ∧ date.year ≤ 9999)) ∧
    (HasPlainDate stem name → ∀ other date packed, HasPlainDate stem other →
      parse? stem name = some (date, packed) → parse? stem other = some (date, packed) →
        name = other) ∧
    (HasPlainDate stem name →
      (∀ date packed, 0 ≤ date.year ∧ date.year ≤ 9999 → name ≠ fileName stem date packed) →
      ∀ (o : Cleanup.Occasion) (settings : LogSettings) (t : FileTree) (place above : Location),
        settings.stem = stem → t.IsListed settings.directory place →
        (∀ entry ∈ o.listing t place, IsName entry) →
        (Cleanup.runOrdered o settings t).1.node? (above ++ [name]) =
          t.node? (above ++ [name])) := by
  refine ⟨fun date packed => parse?_iff_spells, fun date packed => hasPlainDate_iff, ?_, ?_⟩
  · intro hplain other date packed hplain' hread hread'
    obtain ⟨rfl, -⟩ := (hasPlainDate_iff hread).1 hplain
    exact ((hasPlainDate_iff hread').1 hplain').1.symm
  · rintro hplain hunwritten o settings t place above rfl listed named
    apply Cleanup.runOrdered_leaves_foreign o listed named
    rw [Option.eq_none_iff_forall_ne_some]
    rintro ⟨date, packed⟩ hread
    obtain ⟨hname, hbounds⟩ := (hasPlainDate_iff hread).1 hplain
    exact hunwritten date packed hbounds hname

/-- The name of a packed log has a plain date, and no other such name is read as the log. -/
theorem parse?_as_written_if_plain_packed :
    HasPlainDate "tcode" "tcode.2026-03-01.log.gz" ∧
      ∀ other, HasPlainDate "tcode" other → parse? "tcode" other = some (⟨2026, 3, 1⟩, true) →
        "tcode.2026-03-01.log.gz" = other := by
  have hread : parse? "tcode" "tcode.2026-03-01.log.gz" = some (⟨2026, 3, 1⟩, true) := by
    decide +kernel
  have hname : "tcode.2026-03-01.log.gz" = fileName "tcode" ⟨2026, 3, 1⟩ true := by decide +kernel
  obtain ⟨-, hwritten, hunique, -⟩ := parse?_as_written_if_plain "tcode" "tcode.2026-03-01.log.gz"
  have hplain := (hwritten _ _ hread).2 ⟨hname, by decide, by decide⟩
  exact ⟨hplain, fun other hplain' hread' => hunique hplain other _ _ hplain' hread hread'⟩

/-- A file whose name has a date with a sign and a short month. -/
def signedLogs : FileTree where
  nodes := [(["logs"], .directory), (["logs", "tcode.+2026-3-01.log"], .file [97] 0o644)]

/-- A sign in place of a missing digit: another name is read as that of a log, two names are read as
one day, and a clean-up removes a file whose name is not written for any log. -/
theorem signed_name_is_removed :
    parse? "tcode" "tcode.+2026-3-01.log" = some (⟨2026, 3, 1⟩, false) ∧
    "tcode.+2026-3-01.log" ≠ fileName "tcode" ⟨2026, 3, 1⟩ false ∧
    parse? "tcode" (fileName "tcode" ⟨2026, 3, 1⟩ false) = some (⟨2026, 3, 1⟩, false) ∧
    signedLogs.node? ["logs", "tcode.+2026-3-01.log"] = some (.file [97] 0o644) ∧
    (Cleanup.runOrdered (Cleanup.plainOccasion Cleanup.sampleDay) Cleanup.sampleSettings
      signedLogs).1.node? ["logs", "tcode.+2026-3-01.log"] = none := by
  refine ⟨by decide +kernel, by decide +kernel, by decide +kernel, rfl, by decide +kernel⟩

end LogFile

end Transcode
