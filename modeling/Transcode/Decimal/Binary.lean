/-!
# Binary floating point numbers

A floating point number is a whole number times a power of two. Every rounding goes to the nearest
number of the format, a half to the one with the even significand, and is decided by exact
arithmetic on fractions.
-/

set_option autoImplicit false

namespace Transcode.Decimal

/-- A fraction that is not negative. -/
structure Ratio where
  num : Nat
  den : Nat

namespace Ratio

/-- Times a power of two. -/
def scaleTwo (r : Ratio) (e : Int) : Ratio :=
  if 0 ≤ e then ⟨r.num * Nat.pow 2 e.toNat, r.den⟩ else ⟨r.num, r.den * Nat.pow 2 (-e).toNat⟩

/-- Times a power of ten. -/
def scaleTen (r : Ratio) (e : Int) : Ratio :=
  if 0 ≤ e then ⟨r.num * Nat.pow 10 e.toNat, r.den⟩ else ⟨r.num, r.den * Nat.pow 10 (-e).toNat⟩

/-- The whole number below. -/
def floor (r : Ratio) : Nat :=
  r.num / r.den

/-- The nearest whole number, a half to the even neighbour. -/
def roundEven (r : Ratio) : Nat :=
  let below := r.num / r.den
  let twice := 2 * (r.num % r.den)
  if twice < r.den then below
  else if r.den < twice then below + 1
  else below + below % 2

/-- The product of two fractions. -/
def mul (a b : Ratio) : Ratio :=
  ⟨a.num * b.num, a.den * b.den⟩

/-- The quotient of two fractions. -/
def div (a b : Ratio) : Ratio :=
  ⟨a.num * b.den, a.den * b.num⟩

/-- The order of fractions. -/
def le (a b : Ratio) : Bool :=
  a.num * b.den ≤ b.num * a.den

/-- The strict order of fractions. -/
def lt (a b : Ratio) : Bool :=
  a.num * b.den < b.num * a.den

end Ratio

/-- A format: the bits of the significand and the least and greatest weight of its last bit. -/
structure BinaryFormat where
  precision : Nat
  least : Int
  greatest : Int

/-- Numbers of 32 bits. -/
def single : BinaryFormat := ⟨24, -149, 104⟩

/-- Numbers of 64 bits. -/
def double : BinaryFormat := ⟨53, -1074, 971⟩

/-- A number of a format: `significand * 2 ^ exponent` with a sign, an infinity, or no number. -/
inductive Binary where
  | finite (negative : Bool) (significand : Nat) (exponent : Int)
  | infinite (negative : Bool)
  | nan
deriving Repr, DecidableEq

namespace Binary

/-- The size of a finite number. -/
def magnitude (significand : Nat) (exponent : Int) : Ratio :=
  Ratio.scaleTwo ⟨significand, 1⟩ exponent

/-- The number without its sign, zero for what is not finite. -/
def abs : Binary → Ratio
  | finite _ m e => magnitude m e
  | _ => ⟨0, 1⟩

/-- Zero, of either sign. -/
def isZero : Binary → Bool
  | finite _ 0 _ => true
  | _ => false

end Binary

namespace BinaryFormat

/-- Rounds a fraction to the format. The weight of the last bit is the least one for which the
significand still fits. -/
def round (f : BinaryFormat) (negative : Bool) (r : Ratio) : Binary :=
  if r.num = 0 then .finite negative 0 f.least
  else
    let guess : Int := max f.least ((Nat.log2 r.num : Int) - (Nat.log2 r.den : Int) - f.precision)
    let weight := if Nat.pow 2 f.precision ≤ (r.scaleTwo (-guess)).floor then guess + 1 else guess
    let m := (r.scaleTwo (-weight)).roundEven
    let (m, weight) := if m = Nat.pow 2 f.precision then (m / 2, weight + 1) else (m, weight)
    if f.greatest < weight then .infinite negative else .finite negative m weight

/-- The number nearest to `m * 10 ^ e`. Far outside the format's range the power of ten is not
worked out. -/
def ofDecimal (f : BinaryFormat) (negative : Bool) (m : Nat) (e : Int) : Binary :=
  let place : Int := (Nat.toDigits 10 m).length + e
  if m = 0 ∨ place < -400 then .finite negative 0 f.least
  else if 400 < place then .infinite negative
  else f.round negative (Ratio.scaleTen ⟨m, 1⟩ e)

end BinaryFormat

end Transcode.Decimal
