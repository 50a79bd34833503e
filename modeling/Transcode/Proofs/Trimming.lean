import Transcode.Text.Ascii
import Transcode.Text.Blank
/-!
# Letter case and white space

Trimming takes the white space off both ends of a text and leaves what is tight (`Text.IsTight`): it
divides a text in one way only, whatever gaps there are (`Text.trimChars_eq`). So trimming is
idempotent, and removing a gap first makes no difference. Letter case moves the letters from `A` to
`Z` or from `a` to `z` and leaves white space alone (`Text.IsCasing`), so a text that was trimmed
and brought to one case keeps that form (`Text.IsCasing.normal_normal`).
-/

set_option autoImplicit false

namespace Transcode.Text

variable {cs gap gap' rest : List Char}

/-! ## White space -/

/-- White space and nothing else. -/
def IsGap (cs : List Char) : Prop :=
  ∀ c ∈ cs, isBlank c = true

/-- No white space at either end. -/
structure IsTight (cs : List Char) : Prop where
  head : ∀ c, cs.head? = some c → isBlank c = false
  last : ∀ c, cs.getLast? = some c → isBlank c = false

theorem IsGap.append (blank : IsGap gap) (blank' : IsGap gap') : IsGap (gap ++ gap') := by
  intro c hc
  exact (List.mem_append.1 hc).elim (blank c) (blank' c)

/-- A gap in front of something else is skipped. -/
theorem dropWhile_gap (blank : IsGap gap)
    (stops : ∀ c, rest.head? = some c → isBlank c = false) :
    (gap ++ rest).dropWhile isBlank = rest := by
  rw [List.dropWhile_append_of_pos blank]
  cases rest with
  | nil => rfl
  | cons c cs => rw [List.dropWhile_cons_of_neg (by simp [stops c rfl])]

/-- Decomposition into a gap at the front and a rest that begins with none. -/
theorem exists_gap (cs : List Char) :
    ∃ gap, cs = gap ++ cs.dropWhile isBlank ∧ IsGap gap ∧
      ∀ c, (cs.dropWhile isBlank).head? = some c → isBlank c = false := by
  refine ⟨cs.takeWhile isBlank, List.takeWhile_append_dropWhile.symm,
    List.all_eq_true.1 List.all_takeWhile, ?_⟩
  intro c hc
  have hstop := List.head?_dropWhile_not isBlank cs
  rw [hc] at hstop
  exact Bool.eq_false_iff.2 (by simpa using hstop)

/-! ## Trimming -/

/-- Trimming removes the gaps around a text without gaps at its ends. -/
theorem trimChars_eq (blank : IsGap gap) (tight : IsTight cs) (blank' : IsGap gap') :
    trimChars (gap ++ (cs ++ gap')) = cs := by
  have hblank' : IsGap gap'.reverse := fun c hc => blank' c (List.mem_reverse.1 hc)
  unfold trimChars
  cases cs with
  | nil =>
      -- the two gaps are one
      have hall : (gap ++ gap' ++ []).dropWhile isBlank = [] :=
        dropWhile_gap (blank.append blank') (by simp)
      rw [List.append_nil] at hall
      rw [List.nil_append, hall]
      rfl
  | cons c rest =>
      rw [dropWhile_gap blank fun d hd => tight.head d (by simpa using hd), List.reverse_append,
        dropWhile_gap hblank' fun d hd => tight.last d (by rwa [List.head?_reverse] at hd),
        List.reverse_reverse]

/-- Trimming takes a gap off each end, and leaves none there. -/
theorem exists_gaps (cs : List Char) :
    ∃ gap gap', cs = gap ++ (trimChars cs ++ gap') ∧ IsGap gap ∧ IsGap gap' ∧
      IsTight (trimChars cs) := by
  obtain ⟨gap, hfront, hblank, hhead⟩ := exists_gap cs
  obtain ⟨gap', hback, hblank', hlast⟩ := exists_gap (cs.dropWhile isBlank).reverse
  have hrest : cs.dropWhile isBlank = trimChars cs ++ gap'.reverse := by
    have hreversed := congrArg List.reverse hback
    rwa [List.reverse_reverse, List.reverse_append] at hreversed
  refine ⟨gap, gap'.reverse, by rw [← hrest, ← hfront], hblank,
    fun c hc => hblank' c (List.mem_reverse.1 hc), ?_, ?_⟩
  · intro c hc
    apply hhead
    rw [hrest, List.head?_append, hc, Option.some_or]
  · intro c hc
    exact hlast c (by rwa [trimChars, List.getLast?_reverse] at hc)

theorem isTight_trimChars (cs : List Char) : IsTight (trimChars cs) := by
  obtain ⟨_, _, -, -, -, htight⟩ := exists_gaps cs
  exact htight

theorem IsTight.trimChars_eq (tight : IsTight cs) : trimChars cs = cs := by
  have hnone : IsGap [] := fun c hc => nomatch hc
  have htrim := Text.trimChars_eq hnone tight hnone
  rwa [List.nil_append, List.append_nil] at htrim

/-- Trimming is idempotent. -/
theorem trimChars_trimChars (cs : List Char) : trimChars (trimChars cs) = trimChars cs :=
  (isTight_trimChars cs).trimChars_eq

theorem trimChars_gap_append (blank : IsGap gap) (cs : List Char) :
    trimChars (gap ++ cs) = trimChars cs := by
  obtain ⟨front, back, hcs, hfront, hback, htight⟩ := exists_gaps cs
  have htrim := trimChars_eq (blank.append hfront) htight hback
  rwa [List.append_assoc, ← hcs] at htrim

theorem trimChars_append_gap (cs : List Char) (blank : IsGap gap) :
    trimChars (cs ++ gap) = trimChars cs := by
  obtain ⟨front, back, hcs, hfront, hback, htight⟩ := exists_gaps cs
  have htrim := trimChars_eq hfront htight (hback.append blank)
  rwa [← List.append_assoc (trimChars cs), ← List.append_assoc front, ← hcs] at htrim

/-! ## Letter case -/

theorem isUpper_iff {c : Char} : c.isUpper = true ↔ 65 ≤ c.toNat ∧ c.toNat ≤ 90 := by
  show decide _ = true ↔ _
  rw [decide_eq_true_eq]
  rfl

theorem isLower_iff {c : Char} : c.isLower = true ↔ 97 ≤ c.toNat ∧ c.toNat ≤ 122 := by
  show (decide _ && decide _) = true ↔ _
  rw [Bool.and_eq_true, decide_eq_true_eq, decide_eq_true_eq]
  rfl

/-- Lower case moves the letters from `A` to `Z` by 32 and nothing else. -/
theorem toLower_cases (c : Char) :
    ¬ (65 ≤ c.toNat ∧ c.toNat ≤ 90) ∧ c.toLower = c ∨
      65 ≤ c.toNat ∧ c.toNat ≤ 90 ∧ c.toLower.toNat = c.toNat + 32 := by
  unfold Char.toLower
  split
  · next hupper =>
      have hfrom : 65 ≤ c.toNat := hupper.1
      have hto : c.toNat ≤ 90 := hupper.2
      refine .inr ⟨hfrom, hto, ?_⟩
      show (c.val + 32).toNat = c.toNat + 32
      rw [UInt32.toNat_add]
      show (c.toNat + 32) % 2 ^ 32 = c.toNat + 32
      omega
  · next hother => exact .inl ⟨hother, rfl⟩

theorem toLower_toLower (c : Char) : c.toLower.toLower = c.toLower := by
  rcases toLower_cases c with ⟨-, hsame⟩ | ⟨hfrom, -, hshift⟩
  · rw [hsame, hsame]
  · rcases toLower_cases c.toLower with ⟨-, hsame⟩ | ⟨-, hto, -⟩
    · exact hsame
    · omega

/-- Upper case moves the letters from `a` to `z` back by 32 and nothing else. -/
theorem toUpper_cases (c : Char) :
    ¬ (97 ≤ c.toNat ∧ c.toNat ≤ 122) ∧ c.toUpper = c ∨
      97 ≤ c.toNat ∧ c.toNat ≤ 122 ∧ c.toUpper.toNat + 32 = c.toNat := by
  unfold Char.toUpper
  split
  · next hlower =>
      have hfrom : 97 ≤ c.toNat := hlower.1
      have hto : c.toNat ≤ 122 := hlower.2
      refine .inr ⟨hfrom, hto, ?_⟩
      show (c.val + 4294967264).toNat + 32 = c.toNat
      rw [UInt32.toNat_add]
      show (c.toNat + 4294967264) % 2 ^ 32 + 32 = c.toNat
      omega
  · next hother => exact .inl ⟨hother, rfl⟩

theorem toUpper_toUpper (c : Char) : c.toUpper.toUpper = c.toUpper := by
  rcases toUpper_cases c with ⟨-, hsame⟩ | ⟨-, hto, hshift⟩
  · rw [hsame, hsame]
  · rcases toUpper_cases c.toUpper with ⟨-, hsame⟩ | ⟨hfrom, -, -⟩
    · exact hsame
    · omega

theorem isUpper_toLower (c : Char) : c.toLower.isUpper = false := by
  rw [Bool.eq_false_iff, Ne, isUpper_iff]
  rcases toLower_cases c with ⟨hother, hsame⟩ | ⟨hfrom, -, hshift⟩
  · rwa [hsame]
  · omega

theorem isLower_toUpper (c : Char) : c.toUpper.isLower = false := by
  rw [Bool.eq_false_iff, Ne, isLower_iff]
  rcases toUpper_cases c with ⟨hother, hsame⟩ | ⟨-, hto, hshift⟩
  · rwa [hsame]
  · omega

/-- Nothing from `A` to `z` is blank. -/
theorem isBlank_of_letter {c : Char} (least : 65 ≤ c.toNat) (greatest : c.toNat ≤ 122) :
    isBlank c = false := by
  simp only [isBlank, Bool.or_eq_false_iff, Bool.and_eq_false_iff, decide_eq_false_iff_not,
    beq_eq_false_iff_ne]
  omega

theorem isBlank_toLower (c : Char) : isBlank c.toLower = isBlank c := by
  rcases toLower_cases c with ⟨-, hsame⟩ | ⟨hfrom, hto, hshift⟩
  · rw [hsame]
  · rw [isBlank_of_letter hfrom (by omega), isBlank_of_letter (by omega) (by omega)]

theorem isBlank_toUpper (c : Char) : isBlank c.toUpper = isBlank c := by
  rcases toUpper_cases c with ⟨-, hsame⟩ | ⟨hfrom, hto, hshift⟩
  · rw [hsame]
  · rw [isBlank_of_letter (by omega) hto, isBlank_of_letter (by omega) (by omega)]

/-! ## Normal forms -/

/-- A change of letters that leaves white space alone, does nothing more a second time and leaves no
letter of the class `cased`. -/
structure IsCasing (f : Char → Char) (cased : Char → Bool) : Prop where
  blank : ∀ c, isBlank (f c) = isBlank c
  twice : ∀ c, f (f c) = f c
  uncased : ∀ c, cased (f c) = false

theorem isCasing_toLower : IsCasing Char.toLower Char.isUpper :=
  ⟨isBlank_toLower, toLower_toLower, isUpper_toLower⟩

theorem isCasing_toUpper : IsCasing Char.toUpper Char.isLower :=
  ⟨isBlank_toUpper, toUpper_toUpper, isLower_toUpper⟩

/-- The text trimmed and with its letters changed. -/
def normal (f : Char → Char) (text : String) : String :=
  String.ofList ((trim text).toList.map f)

/-- A text that is trimmed and has no letter of the class `cased`. -/
structure IsNormal (cased : Char → Bool) (text : String) : Prop where
  tight : IsTight text.toList
  uncased : ∀ c ∈ text.toList, cased c = false

section Normal

variable {f : Char → Char} {cased : Char → Bool} {text : String}

theorem toList_normal : (normal f text).toList = (trimChars text.toList).map f := by
  rw [normal, trim, String.toList_ofList, String.toList_ofList]

theorem normal_eq_empty_iff : normal f text = "" ↔ trim text = "" := by
  rw [← String.toList_eq_nil_iff, toList_normal, List.map_eq_nil_iff,
    ← String.toList_eq_nil_iff, trim, String.toList_ofList]

/-- Letters can be changed before or after trimming. -/
theorem IsCasing.trimChars_map (casing : IsCasing f cased) (cs : List Char) :
    trimChars (cs.map f) = (trimChars cs).map f := by
  have hblank : isBlank ∘ f = isBlank := funext casing.blank
  simp only [trimChars, List.dropWhile_map, ← List.map_reverse, hblank]

/-- A text in its normal form keeps it. -/
theorem IsCasing.normal_normal (casing : IsCasing f cased) (text : String) :
    normal f (normal f text) = normal f text := by
  have htwice : f ∘ f = f := funext casing.twice
  apply String.toList_inj.1
  rw [toList_normal, toList_normal, casing.trimChars_map, trimChars_trimChars, List.map_map, htwice]

theorem IsCasing.isNormal (casing : IsCasing f cased) (text : String) :
    IsNormal cased (normal f text) where
  tight := by
    rw [toList_normal, ← casing.trimChars_map]
    exact isTight_trimChars _
  uncased := by
    intro c hc
    rw [toList_normal] at hc
    obtain ⟨c', -, rfl⟩ := List.mem_map.1 hc
    exact casing.uncased c'

end Normal

end Transcode.Text
