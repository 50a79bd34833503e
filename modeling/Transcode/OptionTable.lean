import Transcode.Decimal.Natural
import Transcode.Error
import Transcode.Ordered
import Transcode.Text.Ascii
import Transcode.Text.Blank
/-!
# Option tables

Options are pairs of a name and a text, kept in the order of the names with one value for each. A
pair is written `name=value`; a name alone stands for the value `true`. Typed reading happens when
an option is asked for, so a table holds any text.
-/

set_option autoImplicit false

namespace Transcode

/-- Options by name, the names strictly increasing. -/
structure OptionTable extends Ordered String
deriving Repr, DecidableEq

namespace OptionTable

/-- The table without options. -/
def empty : OptionTable :=
  ⟨Ordered.empty⟩

/-- Sets an option; the name is taken as it is. -/
def set (table : OptionTable) (name value : String) : OptionTable :=
  ⟨Ordered.place name value table.toOrdered⟩

/-- The text of an option. -/
def get? (table : OptionTable) (name : String) : Option String :=
  table.entries.lookup name

/-- Whether an option is set. -/
def contains (table : OptionTable) (name : String) : Bool :=
  (table.get? name).isSome

/-- The names, in order. -/
def names (table : OptionTable) : List String :=
  table.entries.map Prod.fst

/-- The number of options. -/
def size (table : OptionTable) : Nat :=
  table.entries.length

/-- Sets all options of `other` over those of `table`. -/
def merge (table other : OptionTable) : OptionTable :=
  other.entries.foldl (fun t e => t.set e.1 e.2) table

/-- A character an option name may hold. -/
def isNameChar (c : Char) : Bool :=
  Text.isAsciiAlphanum c || c == '_' || c == '-'

/-- Divides a pair at the first `=`; the value without one is `true`. -/
def divide (pair : List Char) : List Char × List Char :=
  match pair.dropWhile (· ≠ '=') with
  | [] => (pair, "true".toList)
  | _ :: value => (Text.trimChars (pair.takeWhile (· ≠ '=')), Text.trimChars value)

/-- Reads `name=value` or `name`. White space around both parts is dropped and the name is put into
lower case. -/
def parsePair (pair : String) : Except Error (String × String) :=
  let trimmed := Text.trim pair
  let (name, value) := divide trimmed.toList
  if name = [] then .error (.configuration (.optionWithoutName trimmed))
  else if name.all isNameChar then
    .ok (Text.lower (String.ofList name), String.ofList value)
  else .error (.configuration (.invalidOptionName (String.ofList name)))

/-- Adds pairs from left to right; the first that cannot be read decides the failure. -/
def addPairs (table : OptionTable) : List String → Except Error OptionTable
  | [] => .ok table
  | pair :: rest =>
      match parsePair pair with
      | .ok (name, value) => (table.set name value).addPairs rest
      | .error e => .error e

/-- The table of a list of pairs; of two pairs with one name the later one counts. -/
def ofPairs (pairs : List String) : Except Error OptionTable :=
  empty.addPairs pairs

/-- The boolean words, in any letter case. -/
def bool? (value : String) : Option Bool :=
  match Text.lower value with
  | "1" | "true" | "yes" | "on" => some true
  | "0" | "false" | "no" | "off" => some false
  | _ => none

/-- Reads an option as a boolean, if it is set. -/
def getBool (table : OptionTable) (name : String) : Except Error (Option Bool) :=
  match table.get? name with
  | none => .ok none
  | some value =>
      match bool? value with
      | some b => .ok (some b)
      | none => .error (.configuration (.notBool name value))

/-- A switch: off where it is not set. -/
def flag (table : OptionTable) (name : String) : Except Error Bool :=
  (table.getBool name).map fun b => b.getD false

/-- Reads an option as a number below `limit`, if it is set. -/
def getBelow (limit : Nat) (table : OptionTable) (name : String) : Except Error (Option Nat) :=
  match table.get? name with
  | none => .ok none
  | some value =>
      match Decimal.below? limit value with
      | some n => .ok (some n)
      | none => .error (.configuration (.notNumber name value))

/-- Reads an option as a number of 32 bits. -/
def getWord32 (table : OptionTable) (name : String) : Except Error (Option Nat) :=
  getBelow UInt32.size table name

/-- Reads an option as a number of 64 bits. -/
def getWord64 (table : OptionTable) (name : String) : Except Error (Option Nat) :=
  getBelow UInt64.size table name

/-- The options every plugin takes. -/
def generic : List String :=
  ["format", "frame_size", "container", "raw", "keep_partial", "tool_timeout_ms", "audio"]

end OptionTable

end Transcode
