/-!
# Natural numbers in decimal

A number option is an optional `+` and one or more digits, and it stays below a limit: a text
whose value does not fit is refused, never wrapped around.
-/

set_option autoImplicit false

namespace Transcode.Decimal

/-- The value of a digit. -/
def digitValue (c : Char) : Nat :=
  c.toNat - '0'.toNat

/-- The value of a list of digits, the most significant first. -/
def ofDigits (ds : List Char) : Nat :=
  ds.foldl (fun n d => n * 10 + digitValue d) 0

/-- One or more digits and nothing else. -/
def digits? (cs : List Char) : Option Nat :=
  if cs ≠ [] ∧ cs.all Char.isDigit then some (ofDigits cs) else none

/-- An optional `+` and one or more digits. -/
def unsigned? : List Char → Option Nat
  | '+' :: cs => digits? cs
  | cs => digits? cs

/-- Reads a number below `limit`. -/
def below? (limit : Nat) (s : String) : Option Nat :=
  (unsigned? s.toList).filter (· < limit)

/-- Writes a number with at least `width` digits, zeros in front. -/
def padded (width n : Nat) : String :=
  let digits := Nat.toDigits 10 n
  String.ofList (List.replicate (width - digits.length) '0' ++ digits)

end Transcode.Decimal
