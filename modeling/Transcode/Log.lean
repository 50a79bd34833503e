/-!
# Log lines

What a step has to tell is part of its result: a list of lines, each with a level. Nothing else
depends on them.
-/

set_option autoImplicit false

namespace Transcode

/-- The weight of a log line. -/
inductive LogLevel where
  | error
  | warn
  | info
  | debug
deriving Repr, DecidableEq

namespace LogLevel

/-- The level as it is written in front of a line. -/
def label : LogLevel → String
  | error => "ERROR"
  | warn => "WARN"
  | info => "INFO"
  | debug => "DEBUG"

/-- The heavier the level, the smaller the number. -/
def rank : LogLevel → Nat
  | error => 0
  | warn => 1
  | info => 2
  | debug => 3

end LogLevel

/-- One line for the log. -/
structure LogLine where
  level : LogLevel
  text : String
deriving Repr, DecidableEq

namespace LogLine

/-- The line with its level in front. -/
def render (line : LogLine) : String :=
  line.level.label ++ " " ++ line.text

/-- Whether a line is shown where lines of `limit` and heavier ones are. -/
def shownAt (limit : LogLevel) (line : LogLine) : Bool :=
  line.level.rank ≤ limit.rank

end LogLine

/-- A value together with the lines logged on the way to it. -/
structure Logged (α : Type) where
  value : α
  lines : List LogLine := []

end Transcode
