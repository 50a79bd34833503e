import Transcode.Decimal.Natural
import Transcode.Decimal.Shortest
/-!
# Numbers in JSON

A whole number that fits into 64 bits stays exact. Every other number becomes a floating point
number: its digits are taken into a significand of 64 bits while they fit, and one multiplication
or division by a power of ten follows, each rounded by itself. A number beyond the largest floating
point number is refused.

Written out, a floating point number has the fewest digits that read back, always with a point or
an exponent, so that it does not look like a whole number.
-/

set_option autoImplicit false

namespace Transcode

open Decimal (Binary Ratio)

/-- A number of a JSON text. -/
inductive JsonNumber where
  | natural (n : Nat)
  /-- The number `-(n + 1)`. -/
  | negative (n : Nat)
  | float (x : Binary)
deriving Repr, DecidableEq

namespace JsonNumber

/-- The first significand that does not fit. -/
def significandLimit : Nat := UInt64.size

/-- A significand and a decimal exponent. -/
structure Parts where
  significand : Nat
  exponent : Int

/-- Takes digits of the whole part; from the first one that does not fit on, each only raises the
exponent. -/
def takeWhole (p : Parts) : List Char → Parts
  | [] => p
  | d :: ds =>
      let n := p.significand * 10 + Decimal.digitValue d
      if n < significandLimit then takeWhole ⟨n, p.exponent⟩ ds
      else ⟨p.significand, p.exponent + ds.length + 1⟩

/-- Takes digits of the fraction; from the first one that does not fit on, they are ignored. -/
def takeFraction (p : Parts) : List Char → Parts
  | [] => p
  | d :: ds =>
      let n := p.significand * 10 + Decimal.digitValue d
      if n < significandLimit then takeFraction ⟨n, p.exponent - 1⟩ ds else p

/-- The greatest power of ten that is multiplied or divided by at once. -/
def greatestPower : Nat := 308

/-- A power of ten as a floating point number. -/
def power (n : Nat) : Ratio :=
  (Decimal.double.ofDecimal false 1 n).abs

/-- Divides by a power of ten, in several steps if it is too great for one. -/
def divide (x : Binary) (n : Nat) : Binary :=
  if x.isZero then x
  else if n ≤ greatestPower then Decimal.double.round false (x.abs.div (power n))
  else
    divide (Decimal.double.round false (x.abs.div (power greatestPower))) (n - greatestPower)
termination_by n
decreasing_by
  simp only [greatestPower] at *
  omega

/-- The floating point number of a significand and an exponent, if it is finite. -/
def ofParts (negative : Bool) (p : Parts) : Option JsonNumber :=
  let start := Decimal.double.round false ⟨p.significand, 1⟩
  let size : Binary :=
    if p.exponent < 0 then divide start (-p.exponent).toNat
    else if start.isZero then start
    else if greatestPower < p.exponent.toNat then .infinite false
    else Decimal.double.round false (start.abs.mul (power p.exponent.toNat))
  match size with
  | .finite _ m e => some (float (.finite negative m e))
  | _ => none

/-- A whole number without fraction and exponent. -/
def ofWhole (negative : Bool) (digits : List Char) : Option JsonNumber :=
  let n := Decimal.ofDigits digits
  if significandLimit ≤ n then ofParts negative (takeWhole ⟨0, 0⟩ digits)
  else if !negative then some (natural n)
  else if 0 < n ∧ n ≤ UInt64.size / 2 then some (.negative (n - 1))
  else ofParts true ⟨n, 0⟩

/-- The first exponent that is too great to be worked with. -/
def exponentLimit : Nat := UInt32.size / 2

/-- Applies a written exponent. One that is too great leaves only zero, or refuses the number. -/
def scale (negative : Bool) (p : Parts) (down : Bool) (digits : List Char) : Option JsonNumber :=
  let e := Decimal.ofDigits digits
  if exponentLimit ≤ e then
    if p.significand ≠ 0 ∧ !down then none else ofParts negative ⟨0, 0⟩
  else ofParts negative ⟨p.significand, if down then p.exponent - e else p.exponent + e⟩

/-- Reads what follows the whole part: nothing, or an exponent up to the end. -/
def exponent? (cs : List Char) : Option (Option (Bool × List Char)) :=
  match cs with
  | [] => some none
  | c :: rest =>
      if c = 'e' ∨ c = 'E' then
        let (down, digits) :=
          match rest with
          | '-' :: ds => (true, ds)
          | '+' :: ds => (false, ds)
          | ds => (false, ds)
        if digits ≠ [] ∧ digits.all Char.isDigit then some (some (down, digits)) else none
      else none

/-- Reads an unsigned number. -/
def unsigned? (negative : Bool) (cs : List Char) : Option JsonNumber :=
  let whole := cs.takeWhile Char.isDigit
  let rest := cs.dropWhile Char.isDigit
  let leadingZero : Bool :=
    match whole with
    | '0' :: _ :: _ => true
    | _ => false
  if whole = [] ∨ leadingZero then none
  else
    match rest with
    | '.' :: after =>
        let fraction := after.takeWhile Char.isDigit
        let parts := takeFraction (takeWhole ⟨0, 0⟩ whole) fraction
        if fraction = [] then none
        else
          (exponent? (after.dropWhile Char.isDigit)).bind fun
            | none => ofParts negative parts
            | some (down, digits) => scale negative parts down digits
    | _ =>
        (exponent? rest).bind fun
          | none => ofWhole negative whole
          | some (down, digits) => scale negative (takeWhole ⟨0, 0⟩ whole) down digits

/-- Reads a number. -/
def parse? : List Char → Option JsonNumber
  | '-' :: cs => unsigned? true cs
  | cs => unsigned? false cs

/-- The exponent of the first digit, with its sign. -/
def exponentText (e : Int) : List Char :=
  (if e < 0 then ['e', '-'] else ['e', '+']) ++ Nat.toDigits 10 e.natAbs

/-- A list of digits with the decimal place of the first one: positional from `0.00001` to below
`10 ^ 16`, with an exponent outside. -/
def layoutText (digits : List Char) (place : Int) : List Char :=
  if -5 < place ∧ place ≤ 16 then
    let text := Decimal.positional digits place
    if text.contains '.' then text else text ++ ['.', '0']
  else
    match digits with
    | [] => []
    | [d] => d :: exponentText (place - 1)
    | d :: ds => d :: '.' :: ds ++ exponentText (place - 1)

/-- A floating point number as text. -/
def floatText : Binary → String
  | .finite minus m e =>
      let body :=
        if m = 0 then ['0', '.', '0']
        else
          let (digits, place) :=
            Decimal.Shortest.layout (Decimal.Shortest.search Decimal.double .even 17 m e)
          layoutText digits place
      String.ofList (if minus then '-' :: body else body)
  | _ => "null"

/-- A number as text. -/
def text : JsonNumber → String
  | natural n => toString n
  | negative n => "-" ++ toString (n + 1)
  | float x => floatText x

end JsonNumber

end Transcode
