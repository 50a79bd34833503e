import Mathlib.Algebra.Group.Nat.Defs
import Transcode.Proofs.DateSpellings
import Transcode.Proofs.OptionTables
import Transcode.Proofs.OptionValues
/-!
# Numbers at the limits of a word

A number option has the value of its digits, or it is refused. Accumulating the digits in a word,
with each product and each sum checked (`Decimal.inWord?`), is equivalent: the value is monotone in
the digits, so an overflow on the way is one of the whole number, and leading zeros are allowed
(`Decimal.inWord?_eq_some_iff`). `OptionTable.numbers_read_exactly` states this of the options of 32
and of 64 bits and of the numbers of a job.
-/

set_option autoImplicit false

namespace Transcode

/-! ## Digits in a word -/

namespace Decimal

variable {w : Nat} {n m : BitVec w} {text : String}

/-- The value with one more digit, unless the character is no digit, or the product or the sum
leaves the word. -/
def pushDigit? (n : BitVec w) (c : Char) : Option (BitVec w) :=
  if c.isDigit ∧ ¬ n.umulOverflow 10#w ∧ ¬ (n * 10#w).uaddOverflow (.ofNat w (digitValue c)) then
    some (n * 10#w + .ofNat w (digitValue c))
  else none

/-- One or more digits, gathered in a word. -/
def gather? (w : Nat) (cs : List Char) : Option (BitVec w) :=
  if cs ≠ [] then cs.foldlM pushDigit? 0#w else none

/-- An optional `+` and one or more digits, gathered in a word. -/
def inWord? (w : Nat) : List Char → Option (BitVec w)
  | '+' :: cs => gather? w cs
  | cs => gather? w cs

theorem toNat_ofNat_of_le_ten (room : 4 ≤ w) {k : Nat} (small : k ≤ 10) :
    (BitVec.ofNat w k).toNat = k := by
  have hpower : 2 ^ 4 ≤ 2 ^ w := Nat.pow_le_pow_right (by decide) room
  rw [BitVec.toNat_ofNat, Nat.mod_eq_of_lt (by omega)]

/-- Pushing one digit gives the new value, if it is within the word. -/
theorem pushDigit?_eq_some_iff (room : 4 ≤ w) {c : Char} :
    pushDigit? n c = some m ↔ c.isDigit = true ∧ 10 * n.toNat + digitValue c = m.toNat := by
  have hten : (10#w).toNat = 10 := toNat_ofNat_of_le_ten room (Nat.le_refl 10)
  have hdigit (digit : c.isDigit = true) : (BitVec.ofNat w (digitValue c)).toNat = digitValue c :=
    toNat_ofNat_of_le_ten room (Nat.le_of_lt (digitValue_lt digit))
  rw [pushDigit?, Option.ite_none_right_eq_some]
  constructor
  · rintro ⟨⟨hc, hmul, hadd⟩, hsum⟩
    obtain rfl := Option.some.inj hsum
    rw [BitVec.toNat_add_of_not_uaddOverflow hadd, BitVec.toNat_mul_of_not_umulOverflow hmul, hten,
      hdigit hc, Nat.mul_comm]
    exact ⟨hc, rfl⟩
  · rintro ⟨hc, hvalue⟩
    -- the value is one of the word, so nothing on the way to it leaves the word
    have hless := m.isLt
    have hmul : ¬ n.umulOverflow 10#w = true := by
      rw [BitVec.umulOverflow, decide_eq_true_eq, hten]
      omega
    have hproduct := BitVec.toNat_mul_of_not_umulOverflow hmul
    have hadd : ¬ (n * 10#w).uaddOverflow (.ofNat w (digitValue c)) = true := by
      rw [BitVec.uaddOverflow, decide_eq_true_eq, hproduct, hten, hdigit hc]
      omega
    have hsum := BitVec.toNat_add_of_not_uaddOverflow hadd
    rw [hproduct, hten, hdigit hc, Nat.mul_comm, hvalue] at hsum
    exact ⟨⟨hc, hmul, hadd⟩, congrArg some (BitVec.eq_of_toNat_eq hsum)⟩

/-- A value never falls with more digits. -/
theorem le_ofDigitChars (cs : List Char) (k : Nat) : k ≤ Nat.ofDigitChars 10 cs k := by
  induction cs generalizing k with
  | nil => exact Nat.le_refl k
  | cons c rest ih =>
      rw [Nat.ofDigitChars_cons]
      exact Nat.le_trans (by omega) (ih _)

/-- Pushing digits gives the new value, if it is within the word. -/
theorem foldlM_pushDigit?_eq_some_iff (room : 4 ≤ w) {cs : List Char} :
    cs.foldlM pushDigit? n = some m ↔
      (∀ c ∈ cs, c.isDigit = true) ∧ Nat.ofDigitChars 10 cs n.toNat = m.toNat := by
  induction cs generalizing n with
  | nil =>
      simp [Nat.ofDigitChars, BitVec.toNat_inj]
  | cons c rest ih =>
      rw [List.foldlM_cons, Nat.ofDigitChars_cons, List.forall_mem_cons]
      constructor
      · intro hread
        obtain ⟨next, hnext, hrest⟩ := Option.bind_eq_some_iff.1 hread
        obtain ⟨hc, hvalue⟩ := (pushDigit?_eq_some_iff room).1 hnext
        obtain ⟨hdigits, htotal⟩ := ih.1 hrest
        rw [← hvalue] at htotal
        exact ⟨⟨hc, hdigits⟩, htotal⟩
      · rintro ⟨⟨hc, hdigits⟩, htotal⟩
        -- the next value is not above the last one, so it is one of the word too
        have hnext : 10 * n.toNat + digitValue c < 2 ^ w :=
          Nat.lt_of_le_of_lt (htotal ▸ le_ofDigitChars rest _) m.isLt
        have hvalue : (BitVec.ofNat w (10 * n.toNat + digitValue c)).toNat = 10 * n.toNat +
            digitValue c := by
          rw [BitVec.toNat_ofNat, Nat.mod_eq_of_lt hnext]
        refine Option.bind_eq_some_iff.2 ⟨_, (pushDigit?_eq_some_iff room).2 ⟨hc, hvalue.symm⟩, ?_⟩
        rw [ih, hvalue]
        exact ⟨hdigits, htotal⟩

theorem gather?_eq_some_iff (room : 4 ≤ w) {cs : List Char} :
    gather? w cs = some m ↔ digits? cs = some m.toNat := by
  rw [gather?, Option.ite_none_right_eq_some, foldlM_pushDigit?_eq_some_iff room,
    digits?_eq_some_iff, BitVec.toNat_zero]

/-- A word is gathered from just the texts that write its number. -/
theorem inWord?_eq_some_iff (room : 4 ≤ w) :
    inWord? w text.toList = some m ↔ Writes text m.toNat := by
  rw [← unsigned?_eq_some_iff]
  generalize text.toList = cs
  fun_cases unsigned? cs with
  | case1 cs => exact gather?_eq_some_iff room
  | case2 cs hplain =>
      rw [inWord?.eq_2 w cs hplain]
      exact gather?_eq_some_iff room

end Decimal

/-! ## Options -/

namespace OptionTable

open Decimal

variable {w : Nat}

/-- Options are read as numbers of `w` bits. -/
structure ReadsWord (w : Nat) (read : OptionTable → String → Except Error (Option Nat)) : Prop where
  /-- An option that is not set is no number, and no fault. -/
  unset : ∀ (table : OptionTable) name, table.get? name = none → read table name = .ok none
  /-- The number is the one that the text writes. -/
  value : ∀ (table : OptionTable) name text n, table.get? name = some text →
    (read table name = .ok (some n) ↔ Writes text n ∧ n < 2 ^ w)
  /-- Any other text is refused. -/
  refused : ∀ (table : OptionTable) name text, table.get? name = some text →
    (∀ n < 2 ^ w, ¬ Writes text n) →
      read table name = .error (.configuration (.notNumber name text))
  /-- The number is the one that is gathered in a word, with each product and each sum checked. -/
  gathered : ∀ (table : OptionTable) name text (word : BitVec w), table.get? name = some text →
    (read table name = .ok (some word.toNat) ↔ inWord? w text.toList = some word)
  /-- A number is read back from its decimal. -/
  stored : ∀ (table : OptionTable) name n, n < 2 ^ w →
    read (table.set name (toString n)) name = .ok (some n)

theorem readsWord_getBelow (room : 4 ≤ w) : ReadsWord w (getBelow (2 ^ w)) where
  unset := by
    intro table name hget
    simp only [getBelow, hget]
  value := by
    intro table name text n hget
    exact getBelow_eq_some_iff hget
  refused := by
    intro table name text hget hunwritten
    simp only [getBelow, hget, below?_eq_none_iff.2 hunwritten]
  gathered := by
    intro table name text word hget
    -- a word is below the limit anyway
    rw [getBelow_eq_some_iff hget, inWord?_eq_some_iff room, and_iff_left word.isLt]
  stored := by
    intro table name n hless
    have hget : (table.set name (toString n)).get? name = some (toString n) := by
      rw [get?_set, if_pos rfl]
    simp only [getBelow, hget, below?_toString hless]

/-- An option of a job is read as a positive number of `w` bits. -/
structure ReadsPositive (w : Nat) (name : String) (read : Job → Except Error Nat) : Prop where
  /-- The number is the one that the text writes. -/
  value : ∀ (job : Job) text n, job.options.get? name = some text →
    (read job = .ok n ↔ Writes text n ∧ 1 ≤ n ∧ n ≤ 2 ^ w - 1)
  /-- Any other text is refused. -/
  refused : ∀ (job : Job) text, job.options.get? name = some text →
    (∀ n, 1 ≤ n → n ≤ 2 ^ w - 1 → ¬ Writes text n) →
      ∃ fault, read job = .error (.configuration fault)

theorem readsPositive_getBelow (w : Nat) (name : String) (fallback : Nat) :
    ReadsPositive w name fun job =>
      (job.options.getBelow (2 ^ w) name).bind (Job.positive name fallback) where
  value := by
    intro job text n hget
    have hroom : 0 < 2 ^ w := Nat.two_pow_pos w
    rcases getPositive_cases job.options name (2 ^ w) fallback with ⟨hnone, -⟩ |
      ⟨text', n', hget', hwrites, hpositive, hless, hread⟩ | ⟨text', fault, hget', hwrong, hread⟩
    · cases hnone.symm.trans hget
    · obtain rfl := Option.some.inj (hget'.symm.trans hget)
      rw [hread, Except.ok.injEq]
      refine ⟨?_, fun h => hwrites.unique h.1⟩
      rintro rfl
      exact ⟨hwrites, hpositive, by omega⟩
    · obtain rfl := Option.some.inj (hget'.symm.trans hget)
      rw [hread]
      refine iff_of_false (by simp) ?_
      rintro ⟨hwrites, hpositive, hless⟩
      exact hwrong.not_writes hpositive (by omega) hwrites
  refused := by
    intro job text hget hunwritten
    rcases getPositive_cases job.options name (2 ^ w) fallback with ⟨hnone, -⟩ |
      ⟨text', n, hget', hwrites, hpositive, hless, -⟩ | ⟨-, fault, -, -, hread⟩
    · cases hnone.symm.trans hget
    · obtain rfl := Option.some.inj (hget'.symm.trans hget)
      exact absurd hwrites (hunwritten n hpositive (by omega))
    · exact ⟨fault, hread⟩

/-- **A number option is exact up to its limit.** Read as a number of 32 or of 64 bits, it gives the
number that its text writes if the word can hold that number, and is refused otherwise; nothing is
wrapped around. What is read in 32 bits is the same in 64. A frame size is from 1 to the greatest
number of 32 bits, an idle time of tools from 1 to the greatest one of 64 bits. -/
theorem numbers_read_exactly :
    ReadsWord 32 getWord32 ∧ ReadsWord 64 getWord64 ∧
    (∀ table name n, getWord32 table name = .ok (some n) → getWord64 table name = .ok (some n)) ∧
    ReadsPositive 32 "frame_size" Job.frameSize ∧
      ReadsPositive 64 "tool_timeout_ms" Job.toolTimeout := by
  have hsmall : ReadsWord 32 getWord32 := readsWord_getBelow (by decide)
  have hlarge : ReadsWord 64 getWord64 := readsWord_getBelow (by decide)
  refine ⟨hsmall, hlarge, ?_, readsPositive_getBelow 32 _ _, readsPositive_getBelow 64 _ _⟩
  intro table name n hread
  cases hget : table.get? name with
  | none => cases hread.symm.trans (hsmall.unset table name hget)
  | some text =>
      obtain ⟨hwrites, hless⟩ := (hsmall.value table name text n hget).1 hread
      exact (hlarge.value table name text n hget).2 ⟨hwrites, Nat.lt_trans hless (by decide)⟩

/-- The greatest frame size, with a sign and zeros in front, and the least idle time that is too
long. -/
def atLimits : OptionTable :=
  { entries := [("frame_size", "+004294967295"), ("tool_timeout_ms", "18446744073709551616")] }

theorem numbers_read_exactly_greatest :
    atLimits.getWord32 "frame_size" = .ok (some 4294967295) ∧
      atLimits.getWord64 "frame_size" = .ok (some 4294967295) ∧
      atLimits.getWord64 "tool_timeout_ms" =
        .error (.configuration (.notNumber "tool_timeout_ms" "18446744073709551616")) ∧
      ∀ job : Job, Job.frameSize { job with options := atLimits } = .ok 4294967295 := by
  have hsize : Writes "+004294967295" 4294967295 :=
    ⟨"004294967295".toList, by decide, List.all_eq_true.1 rfl, .inr rfl, by decide⟩
  have htime : Writes "18446744073709551616" 18446744073709551616 :=
    ⟨"18446744073709551616".toList, by decide, List.all_eq_true.1 rfl, .inl rfl, by decide⟩
  obtain ⟨hsmall, hlarge, hwider, hframe, -⟩ := numbers_read_exactly
  have hread := (hsmall.value atLimits "frame_size" _ _ rfl).2 ⟨hsize, by decide⟩
  refine ⟨hread, hwider _ _ _ hread, hlarge.refused atLimits _ _ rfl ?_, ?_⟩
  · intro n hless hwrites
    exact absurd (hwrites.unique htime ▸ hless) (by decide)
  · intro job
    exact (hframe.value { job with options := atLimits } _ _ rfl).2 ⟨hsize, by decide, by decide⟩

end OptionTable

end Transcode
