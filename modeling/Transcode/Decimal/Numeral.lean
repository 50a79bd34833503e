import Transcode.Decimal.Binary
import Transcode.Decimal.Natural
/-!
# Numerals of a fractional number

The accepted numerals: an optional sign, then digits with at most one point among them and an
optional exponent, or one of the words `inf`, `infinity` and `nan` in any letter case. At least one
digit stands before the exponent, and nothing may be left over.
-/

set_option autoImplicit false

namespace Transcode.Decimal

/-- Splits off the digits at the front. -/
def spanDigits (cs : List Char) : List Char × List Char :=
  (cs.takeWhile Char.isDigit, cs.dropWhile Char.isDigit)

/-- An exponent that ends the numeral, or nothing. -/
def exponent? : List Char → Option Int
  | [] => some 0
  | c :: cs =>
      if c = 'e' ∨ c = 'E' then
        match cs with
        | '+' :: ds => (digits? ds).map Int.ofNat
        | '-' :: ds => (digits? ds).map fun n => -Int.ofNat n
        | ds => (digits? ds).map Int.ofNat
      else none

/-- An unsigned numeral as `m * 10 ^ e`. -/
def mantissa? (cs : List Char) : Option (Nat × Int) :=
  let (whole, rest) := spanDigits cs
  let (fraction, rest) :=
    match rest with
    | '.' :: after => spanDigits after
    | _ => ([], rest)
  if whole = [] ∧ fraction = [] then none
  else
    (exponent? rest).map fun e => (ofDigits (whole ++ fraction), e - fraction.length)

/-- The words for what is not finite. -/
def word? (negative : Bool) (cs : List Char) : Option Binary :=
  let w := String.ofList (cs.map Char.toLower)
  if w = "inf" ∨ w = "infinity" then some (.infinite negative)
  else if w = "nan" then some .nan
  else none

/-- Splits off a sign; a number without one is positive. -/
def sign : List Char → Bool × List Char
  | '-' :: cs => (true, cs)
  | '+' :: cs => (false, cs)
  | cs => (false, cs)

/-- Reads a numeral as the nearest number of the format. -/
def numeral? (f : BinaryFormat) (s : String) : Option Binary :=
  let (negative, cs) := sign s.toList
  match mantissa? cs with
  | some (m, e) => some (f.ofDecimal negative m e)
  | none => word? negative cs

end Transcode.Decimal
