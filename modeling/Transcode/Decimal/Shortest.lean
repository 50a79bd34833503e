import Transcode.Decimal.Binary
/-!
# Shortest decimals

A floating point number is written with the fewest digits that read back as the same number, and
of those with the ones nearest to it. The digits are looked for on coarser to finer decimal grids:
on each grid only the two neighbours of the number can be nearest, and the interval of the reals
that round to the number tells whether one of them reads back.
-/

set_option autoImplicit false

namespace Transcode.Decimal

/-- Which of two neighbours a number halfway between them takes. -/
inductive Tie where
  | up
  | even
deriving DecidableEq

/-- The decimal `digits * 10 ^ exponent`. -/
structure Scientific where
  digits : Nat
  exponent : Int
deriving Repr, DecidableEq

namespace Shortest

/-- The decimal place of a positive fraction: the least `d` with `r < 10 ^ d`. -/
def place (r : Ratio) : Int :=
  if r.den ≤ r.num then (Nat.toDigits 10 r.floor).length
  else
    let d : Int := 1 - (Nat.toDigits 10 (r.den / r.num)).length
    if Ratio.le (Ratio.scaleTen ⟨1, 1⟩ d) r then d + 1 else d

/-- Whether a decimal lies among the reals that round to `m * 2 ^ e`. The gap below the least
significand of a binade is half as wide as the gap above it, and the ends of the interval belong
to it when the significand is even. -/
def readsBack (f : BinaryFormat) (m : Nat) (e : Int) (candidate : Ratio) : Bool :=
  let narrow := m = Nat.pow 2 (f.precision - 1) ∧ f.least < e
  let low := Binary.magnitude (4 * m - if narrow then 1 else 2) (e - 2)
  let high := Binary.magnitude (4 * m + 2) (e - 2)
  if m % 2 = 0 then low.le candidate && candidate.le high
  else low.lt candidate && candidate.lt high

/-- The better of the number's two neighbours on the grid of multiples of `10 ^ unit` that read
back, if there is one. -/
def onGrid (f : BinaryFormat) (tie : Tie) (m : Nat) (e : Int) (unit : Int) : Option Scientific :=
  let value := Binary.magnitude m e
  let scaled := value.scaleTen (-unit)
  let below := scaled.floor
  let above := below + 1
  let fits (n : Nat) : Bool := n ≠ 0 && readsBack f m e (Ratio.scaleTen ⟨n, 1⟩ unit)
  let twice := 2 * (scaled.num % scaled.den)
  let belowIsNearer : Bool :=
    twice < scaled.den || (twice == scaled.den && tie == .even && below % 2 == 0)
  if fits below && (belowIsNearer || !fits above) then some ⟨below, unit⟩
  else if fits above then some ⟨above, unit⟩
  else none

/-- The shortest decimal of a positive number; `most` digits always suffice. -/
def search (f : BinaryFormat) (tie : Tie) (most : Nat) (m : Nat) (e : Int) : Scientific :=
  let d := place (Binary.magnitude m e)
  let found := (List.range most).findSome? fun (n : Nat) => onGrid f tie m e (d - (n + 1 : Nat))
  found.getD ⟨((Binary.magnitude m e).scaleTen (most - d)).roundEven, d - most⟩

/-- The digits as text, without zeros at the end, and the decimal place of the first one. -/
def layout (s : Scientific) : List Char × Int :=
  let all := Nat.toDigits 10 s.digits
  let kept := (all.reverse.dropWhile (· == '0')).reverse
  (kept, all.length + s.exponent)

end Shortest

/-- A list of zeros. -/
def zeros (n : Int) : List Char :=
  List.replicate n.toNat '0'

/-- Plain positional text: no exponent, no fraction for a whole number. -/
def positional (digits : List Char) (place : Int) : List Char :=
  if place ≤ 0 then '0' :: '.' :: zeros (-place) ++ digits
  else if digits.length ≤ place then digits ++ zeros (place - digits.length)
  else digits.take place.toNat ++ '.' :: digits.drop place.toNat

/-- A number of 32 bits as a tool takes it: shortest digits, never an exponent. -/
def Binary.plainText : Binary → String
  | .nan => "NaN"
  | .infinite s => if s then "-inf" else "inf"
  | .finite s m e =>
      let body :=
        if m = 0 then ['0']
        else
          let (digits, place) := Shortest.layout (Shortest.search single .up 9 m e)
          positional digits place
      String.ofList (if s then '-' :: body else body)

/-- Writes a fraction with a fixed number of places; the last place is rounded to the nearest
digit, a half to the even one. -/
def fixedPlaces (places : Nat) (r : Ratio) : String :=
  let n := (r.scaleTen places).roundEven
  let digits := Nat.toDigits 10 n
  let digits := List.replicate (places + 1 - digits.length) '0' ++ digits
  let whole := digits.length - places
  String.ofList (digits.take whole ++ '.' :: digits.drop whole)

end Transcode.Decimal
