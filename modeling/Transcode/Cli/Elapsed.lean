import Transcode.Decimal.Shortest
/-!
# Elapsed time

A time is written in the largest unit of which it holds at least one, with two places.
-/

set_option autoImplicit false

namespace Transcode.Cli

/-- A number of nanoseconds as text. -/
def elapsedText (nanoseconds : Nat) : String :=
  let written (unit : Nat) (label : String) : String :=
    Decimal.fixedPlaces 2 ⟨nanoseconds, unit⟩ ++ label
  if 1000000000 ≤ nanoseconds then written 1000000000 "s"
  else if 1000000 ≤ nanoseconds then written 1000000 "ms"
  else if 1000 ≤ nanoseconds then written 1000 "µs"
  else written 1 "ns"

end Transcode.Cli
