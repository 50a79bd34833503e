import Transcode.Json.Value
/-!
# Log settings

The settings are read from JSON, either from an object, where a missing field has its default and an
unknown one is ignored, or from a list that gives the fields in order.
-/

set_option autoImplicit false

namespace Transcode

/-- Where logs go, how much is logged and how long it is kept. -/
structure LogSettings where
  level : String := "info"
  /-- The level of the console; nothing is shown there without one. -/
  consoleLevel : Option String := some "warn"
  directory : String := "logs"
  /-- What the names of log files begin with. -/
  stem : String := "tcode"
  retentionDays : Int := 30
  compressHistory : Bool := true
  /-- The seconds between two clean-ups. -/
  cleanupInterval : Nat := 3600
deriving Repr, DecidableEq

namespace LogSettings

/-- Raises the levels by the number of times more detail was asked for. A console that is off stays
off. -/
def withVerbosity (s : LogSettings) (verbosity : Nat) : LogSettings :=
  match verbosity with
  | 0 => s
  | 1 => { s with consoleLevel := s.consoleLevel.map fun _ => "info", level := "debug" }
  | _ => { s with consoleLevel := s.consoleLevel.map fun _ => "debug", level := "trace" }

/-- The names of the fields, in order. -/
def fields : List String :=
  ["level", "console_level", "directory", "file_prefix", "retention_days", "compress_history",
    "cleanup_interval_seconds"]

/-- A text. -/
def textOf? : Json → Option String
  | .string s => some s
  | _ => none

/-- A text or nothing. -/
def optionalText? : Json → Option (Option String)
  | .null => some none
  | .string s => some (some s)
  | _ => none

/-- A whole number of 64 bits with a sign. -/
def integer? : Json → Option Int
  | .number (.natural n) => if n < UInt64.size / 2 then some n else none
  | .number (.negative n) => some (-(n + 1 : Int))
  | _ => none

/-- A whole number of 64 bits without a sign. -/
def natural? : Json → Option Nat
  | .number (.natural n) => some n
  | _ => none

/-- A truth value. -/
def bool? : Json → Option Bool
  | .bool b => some b
  | _ => none

/-- Sets a field; an unknown one changes nothing. -/
def setField (s : LogSettings) (name : String) (v : Json) : Option LogSettings :=
  match name with
  | "level" => (textOf? v).map fun x => { s with level := x }
  | "console_level" => (optionalText? v).map fun x => { s with consoleLevel := x }
  | "directory" => (textOf? v).map fun x => { s with directory := x }
  | "file_prefix" => (textOf? v).map fun x => { s with stem := x }
  | "retention_days" => (integer? v).map fun x => { s with retentionDays := x }
  | "compress_history" => (bool? v).map fun x => { s with compressHistory := x }
  | "cleanup_interval_seconds" => (natural? v).map fun x => { s with cleanupInterval := x }
  | _ => some s

/-- Reads settings. -/
def ofJson? : Json → Option LogSettings
  | .object members =>
      (Ordered.ofList members).entries.foldlM (fun s (name, v) => s.setField name v) {}
  | .array items =>
      if items.length ≤ fields.length then
        (fields.zip items).foldlM (fun s (name, v) => s.setField name v) {}
      else none
  | _ => none

/-- The settings as JSON. -/
def toJson (s : LogSettings) : Json :=
  let days : JsonNumber :=
    if 0 ≤ s.retentionDays then .natural s.retentionDays.toNat
    else .negative (s.retentionDays.natAbs - 1)
  .object
    [("level", .string s.level),
      ("console_level", (s.consoleLevel.map Json.string).getD .null),
      ("directory", .string s.directory),
      ("file_prefix", .string s.stem),
      ("retention_days", .number days),
      ("compress_history", .bool s.compressHistory),
      ("cleanup_interval_seconds", .nat s.cleanupInterval)]

end LogSettings

end Transcode
