import Transcode.OptionTable
import Transcode.Text.Utf8
/-!
# Names in byte order

Texts are compared by code point. That is the order of their UTF-8 bytes (`Utf8.encode_lt_encode`):
a longer code begins with a greater byte, and in codes of one length the leading bits come first. So
the names in an option table, which increase by code point, increase in byte order, too.
-/

set_option autoImplicit false

namespace Transcode

namespace Utf8

/-- The first byte that differs decides. -/
theorem cons_lt_cons {a b : Nat} {x y : Bytes} (ha : a < 256) (hb : b < 256)
    (less : a < b ∨ a = b ∧ x < y) : UInt8.ofNat a :: x < UInt8.ofNat b :: y := by
  rw [List.cons_lt_cons_iff, UInt8.ofNat_lt_iff_lt ha hb]
  rcases less with h | ⟨rfl, h⟩
  · exact .inl h
  · exact .inr ⟨rfl, h⟩

/-- The bits in front of `n` groups of six. -/
def leading : Nat → Nat → Nat
  | 0, v => v
  | n + 1, v => leading n v / 64

theorem leading_le {n v w : Nat} (le : v ≤ w) : leading n v ≤ leading n w := by
  induction n with
  | zero => exact le
  | succ n ih => exact Nat.div_le_div_right ih

/-- The bytes that continue a code: six bits each, the leading ones first. -/
def continuation : Nat → Nat → Bytes
  | 0, _ => []
  | n + 1, v => UInt8.ofNat (leading n v % 64 + 128) :: continuation n v

/-- Numbers that differ only in the bits of the continuation are compared by it. -/
theorem continuation_lt {n v w : Nat} (same : leading n v = leading n w) (less : v < w)
    (x y : Bytes) : continuation n v ++ x < continuation n w ++ y := by
  -- where one more group of bits is the same, the bytes after it decide
  induction n with
  | zero => exact absurd same (Nat.ne_of_lt less)
  | succ n ih =>
      have hgroups : leading n v / 64 = leading n w / 64 := same
      have hle : leading n v ≤ leading n w := leading_le (Nat.le_of_lt less)
      apply cons_lt_cons (by omega) (by omega)
      by_cases hsame : leading n v = leading n w
      · exact .inr ⟨by rw [hsame], ih hsame⟩
      · exact .inl (by omega)

/-- The offset of the leading bits in the first byte of a code with `n` continuation bytes. No first
byte reaches the offset of the next length. -/
def mark : Nat → Nat
  | 0 => 0
  | 1 => 0xC0
  | 2 => 0xE0
  | 3 => 0xF0
  | _ => 0xF8

/-- The first number that has no code of this length. -/
def codeLimit : Nat → Nat
  | 0 => 0x80
  | 1 => 0x800
  | 2 => 0x10000
  | _ => 0x110000

/-- A number and its code: a first byte and `n` bytes to continue it, as few as it takes. -/
structure IsCode (n v : Nat) (bytes : Bytes) : Prop where
  bytes_eq : bytes = UInt8.ofNat (leading n v + mark n) :: continuation n v
  longest : n ≤ 3
  needed : ∀ m < n, codeLimit m ≤ v
  below : v < codeLimit n

variable {n n' v w : Nat} {bytes bytes' : Bytes}

theorem IsCode.lead_lt (code : IsCode n v bytes) : leading n v + mark n < mark (n + 1) := by
  obtain ⟨-, hlongest, -, hbelow⟩ := code
  match n with
  | 0 | 1 | 2 | 3 =>
      simp only [leading, mark, codeLimit] at hbelow ⊢
      omega

theorem mark_le_mark (longer : n < n') (longest : n' ≤ 3) : mark (n + 1) ≤ mark n' := by
  have hall : ∀ n' ≤ 3, ∀ n < n', mark (n + 1) ≤ mark n' := by decide
  exact hall n' longest n longer

theorem IsCode.lead_lt_byte (code : IsCode n v bytes) : leading n v + mark n < 256 := by
  have hall : ∀ n ≤ 3, mark (n + 1) < 256 := by decide
  exact Nat.lt_trans code.lead_lt (hall n code.longest)

/-- Codes are compared as their numbers. -/
theorem IsCode.lt (code : IsCode n v bytes) (code' : IsCode n' w bytes') (less : v < w)
    (x y : Bytes) : bytes ++ x < bytes' ++ y := by
  rcases Nat.lt_trichotomy n n' with hlonger | rfl | hshorter
  · -- the first byte alone decides
    rw [code.bytes_eq, code'.bytes_eq]
    apply cons_lt_cons code.lead_lt_byte code'.lead_lt_byte
    left
    calc leading n v + mark n
      _ < mark (n + 1) := code.lead_lt
      _ ≤ mark n' := mark_le_mark hlonger code'.longest
      _ ≤ leading n' w + mark n' := Nat.le_add_left _ _
  · rw [code.bytes_eq, code'.bytes_eq]
    apply cons_lt_cons code.lead_lt_byte code'.lead_lt_byte
    have hle : leading n v ≤ leading n w := leading_le (Nat.le_of_lt less)
    by_cases hsame : leading n v = leading n w
    · exact .inr ⟨by rw [hsame], continuation_lt hsame less x y⟩
    · exact .inl (by omega)
  · -- a smaller number has no longer code, as codes are as short as they can be
    have hneeded := code.needed n' hshorter
    have hbelow := code'.below
    omega

theorem codeLimit_le (needed : codeLimit n ≤ v) (longest : n ≤ 2) :
    ∀ m < n + 1, codeLimit m ≤ v := by
  have hall : ∀ n ≤ 2, ∀ m < n + 1, codeLimit m ≤ codeLimit n := by decide
  intro m hm
  exact Nat.le_trans (hall n longest m hm) needed

/-- Every character has such a code. -/
theorem exists_isCode (c : Char) : ∃ n, IsCode n c.val.toNat (String.utf8EncodeChar c) := by
  have hlast : c.val.toNat < 0x110000 := by
    rcases c.valid with h | ⟨-, h⟩
    · exact Nat.lt_trans h (by decide)
    · exact h
  unfold String.utf8EncodeChar
  simp only
  generalize c.val.toNat = v at hlast ⊢
  split
  · next hone =>
      exact ⟨0, by simp [leading, mark, continuation], by decide, by simp, Nat.lt_succ_of_le hone⟩
  split
  · next hone htwo =>
      have hlead : v / 64 % 32 = v / 64 := by omega
      exact ⟨1, by simp [leading, mark, continuation, hlead], by decide,
        codeLimit_le (Nat.lt_of_not_le hone) (by decide), Nat.lt_succ_of_le htwo⟩
  split
  · next htwo hthree =>
      have hlead : v / 4096 % 16 = v / 4096 := by omega
      exact ⟨2, by simp [leading, mark, continuation, Nat.div_div_eq_div_mul, hlead], by decide,
        codeLimit_le (Nat.lt_of_not_le htwo) (by decide), Nat.lt_succ_of_le hthree⟩
  · next hthree =>
      have hlead : v / 262144 % 8 = v / 262144 := by omega
      exact ⟨3, by simp [leading, mark, continuation, Nat.div_div_eq_div_mul, hlead], by decide,
        codeLimit_le (Nat.lt_of_not_le hthree) (by decide), hlast⟩

theorem encodeChar_lt {c d : Char} (less : c < d) (x y : Bytes) :
    String.utf8EncodeChar c ++ x < String.utf8EncodeChar d ++ y := by
  obtain ⟨n, code⟩ := exists_isCode c
  obtain ⟨n', code'⟩ := exists_isCode d
  exact code.lt code' less x y

/-- **Texts are ordered as their bytes.** -/
theorem encode_lt_encode {s t : String} (less : s < t) : encode s < encode t := by
  rw [String.lt_iff] at less
  unfold encode
  generalize s.toList = cs at less ⊢
  generalize t.toList = ds at less ⊢
  induction cs generalizing ds with
  | nil =>
      cases ds with
      | nil => exact absurd less (List.lt_irrefl [])
      | cons d ds =>
          obtain ⟨n, code⟩ := exists_isCode d
          rw [List.flatMap_cons, code.bytes_eq]
          exact List.nil_lt_cons _ _
  | cons c cs ih =>
      cases ds with
      | nil => exact absurd less (List.not_lt_nil _)
      | cons d ds =>
          rw [List.flatMap_cons, List.flatMap_cons]
          rcases List.cons_lt_cons_iff.1 less with hchar | ⟨rfl, hrest⟩
          · exact encodeChar_lt hchar _ _
          · exact List.append_left_lt (ih ds hrest)

/-- Different texts have different bytes. -/
theorem eq_of_encode_le {s t : String} (le : encode s ≤ encode t) (ge : encode t ≤ encode s) :
    s = t := by
  by_cases hless : s < t
  · exact absurd (encode_lt_encode hless) (List.not_lt.2 ge)
  · by_cases hgreater : t < s
    · exact absurd (encode_lt_encode hgreater) (List.not_lt.2 le)
    · exact String.le_antisymm (String.not_lt.1 hgreater) (String.not_lt.1 hless)

end Utf8

/-! ## Tables -/

/-- The names of a table are in byte order. -/
theorem OptionTable.names_increasing (table : OptionTable) :
    table.names.Pairwise fun a b => Utf8.encode a < Utf8.encode b := by
  rw [names, List.pairwise_map]
  exact table.increasing.imp fun hless => Utf8.encode_lt_encode hless

end Transcode
