import Transcode.Error
import Transcode.Text.Utf8
/-!
# Programs

An external program is known by what it does: whether it can be started at all, and what it writes
and how it ends for given arguments and input. A program that reads its input reads all of it before
it ends; one that does not closes it at once.
-/

set_option autoImplicit false

namespace Transcode

/-- How a started program ends. -/
inductive Ending where
  /-- It exits with a status. -/
  | exited (code : Int)
  /-- A signal ends it. -/
  | signalled
  /-- It stays silent for ever with its output open. -/
  | silent
  /-- It closes its output and does not exit. -/
  | lingering
deriving Repr, DecidableEq

/-- What a started program does. -/
structure Behaviour where
  readsInput : Bool
  /-- Whether it keeps its output open until it has read its input to the end. -/
  holdsOutput : Bool := true
  /-- What it writes for arguments and an input, and how it ends. -/
  respond : List String → Bytes → Bytes × Ending

/-- A file that can be executed. -/
inductive Program where
  /-- Starting it fails. -/
  | unstartable (cause : IoError)
  /-- It runs. -/
  | runs (behaviour : Behaviour)

end Transcode
