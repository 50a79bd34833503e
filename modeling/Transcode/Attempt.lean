import Transcode.Error
import Transcode.Log
/-!
# Attempts

An attempt is a computation that may fail and that logs. What was logged before a failure is kept.
-/

set_option autoImplicit false

namespace Transcode

/-- A result or a failure, together with the lines logged on the way to it. -/
structure Attempt (α : Type) where
  result : Except Error α
  lines : List LogLine := []

namespace Attempt

variable {α β : Type}

/-- Goes on with the result of an attempt. -/
def andThen (x : Attempt α) (f : α → Attempt β) : Attempt β :=
  match x.result with
  | .error e => { result := .error e, lines := x.lines }
  | .ok a =>
      let y := f a
      { result := y.result, lines := x.lines ++ y.lines }

instance : Monad Attempt where
  pure a := { result := .ok a }
  bind := andThen

/-- Logs lines. -/
def log (lines : List LogLine) : Attempt Unit :=
  { result := .ok (), lines }

/-- A computation that does not log. -/
def quiet (result : Except Error α) : Attempt α :=
  { result }

/-- A failure. -/
def fail (e : Error) : Attempt α :=
  { result := .error e }

/-- A value with lines that cannot fail. -/
def ofLogged (x : Logged α) : Attempt α :=
  { result := .ok x.value, lines := x.lines }

end Attempt

end Transcode
