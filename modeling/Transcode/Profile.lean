import Transcode.Attempt
import Transcode.FileTree
import Transcode.Json.Reader
import Transcode.OptionTable
/-!
# Profiles

A profile is a JSON file with settings for a job: the plugins, a path for raw audio, and options. It
is an object without unknown or repeated fields, or a list that gives the fields in order. An option
is a text, a number or a truth value; numbers become options as they are printed.
-/

set_option autoImplicit false

namespace Transcode

/-- Settings for a job. -/
structure Profile where
  importer? : Option String := none
  exporter? : Option String := none
  rawAudio? : Option String := none
  options : Ordered Json := .empty

namespace Profile

/-- The names of the fields, in order. -/
def fields : List String :=
  ["import", "export", "raw_audio", "options"]

/-- A text or nothing. -/
def text? : Json → Option (Option String)
  | .null => some none
  | .string s => some (some s)
  | _ => none

/-- Sets a field; an unknown one is refused. -/
def setField (p : Profile) (name : String) (v : Json) : Option Profile :=
  match name with
  | "import" => (text? v).map fun x => { p with importer? := x }
  | "export" => (text? v).map fun x => { p with exporter? := x }
  | "raw_audio" => (text? v).map fun x => { p with rawAudio? := x }
  | "options" =>
      match v with
      | .object members => some { p with options := Ordered.ofList members }
      | _ => none
  | _ => none

/-- Reads a profile. -/
def ofJson? : Json → Option Profile
  | .object members =>
      if (members.map Prod.fst).Nodup then
        members.foldlM (fun p (name, v) => p.setField name v) {}
      else none
  | .array items =>
      if items.length ≤ fields.length then
        (fields.zip items).foldlM (fun p (name, v) => p.setField name v) {}
      else none
  | _ => none

/-- Reads the text of a file. -/
def readText (t : FileTree) (path : String) : Except Error String :=
  match t.read path with
  | .error e => .error (.configuration (.profileUnreadable path e))
  | .ok bytes =>
      match Utf8.decode? bytes with
      | none => .error (.configuration (.profileUnreadable path .invalidText))
      | some text => .ok text

/-- Reads a profile from a file. -/
def load (t : FileTree) (path : String) : Attempt Profile := do
  let text ← .quiet (readText t path)
  match (Json.parse? text).bind ofJson? with
  | none => .fail (.configuration (.profileMalformed path))
  | some profile =>
      .log [⟨.debug, s!"载入配置文件: {path}"⟩]
      return profile

/-- The text of an option value. -/
def valueText (name : String) : Json → Except Error String
  | .string s => .ok s
  | .bool b => .ok (Json.bool b).text
  | .number n => .ok n.text
  | other => .error (.configuration (.optionValueRefused name other.text))

/-- An option of a profile, read like one of the command line. -/
def pair (name : String) (v : Json) : Except Error (String × String) := do
  let value ← valueText name v
  match OptionTable.parsePair (name ++ "=" ++ value) with
  | .error (.configuration fault) => .error (.configuration (.within fault))
  | other => other

/-- The options of a profile. Of two names that are read as one, the later in order counts. -/
def optionTable (p : Profile) : Except Error OptionTable :=
  p.options.entries.foldlM (fun table (name, v) => do
    let (name, value) ← pair name v
    return table.set name value) .empty

end Profile

end Transcode
