import Transcode.Date
import Transcode.Path
import Transcode.Strip
import Transcode.Text.Utf8
/-!
# Names of log files

The log of a day is a file whose name is a stem, the date and `.log`, with dots between them; a
packed one has `.gz` added.
-/

set_option autoImplicit false

namespace Transcode.LogFile

/-- The name of the log of a day. -/
def name (stem : String) (date : Date) : String :=
  stem ++ "." ++ date.text ++ ".log"

/-- The path of the log of a day. -/
def path (directory stem : String) (date : Date) : String :=
  Path.join directory (name stem date)

/-- The middle of a name and whether it is the name of a packed file. -/
def middle? (rest : List Char) : Option (List Char × Bool) :=
  match stripEnd? ".log.gz".toList rest with
  | some middle => some (middle, true)
  | none => (stripEnd? ".log".toList rest).map fun middle => (middle, false)

/-- The date of a name, and whether it is the name of a packed file. The date takes ten
bytes. -/
def parse? (stem name : String) : Option (Date × Bool) := do
  let rest ← stripStart? (stem.toList ++ ['.']) name.toList
  let (middle, packed) ← middle? rest
  if (Utf8.encode (String.ofList middle)).length ≠ 10 then none
  else
    let date ← Date.parse? middle
    return (date, packed)

end Transcode.LogFile
