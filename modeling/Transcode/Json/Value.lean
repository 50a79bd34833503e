import Transcode.Json.Number
import Transcode.Ordered
/-!
# JSON values

The members of an object stand in the order of the text, repeated names included; what a repeated
name means is up to the reader of the object. Printing is compact, with the members in the order of
their names and the last of the values given for a name.
-/

set_option autoImplicit false

namespace Transcode

/-- A JSON value. -/
inductive Json where
  | null
  | bool (b : Bool)
  | number (n : JsonNumber)
  | string (s : String)
  | array (items : List Json)
  | object (members : List (String × Json))

namespace Json

/-- A natural number. -/
def nat (n : Nat) : Json :=
  number (.natural n)

/-- A digit of base sixteen. -/
def hexDigit (n : Nat) : Char :=
  if n < 10 then Char.ofNat (48 + n) else Char.ofNat (87 + n)

/-- A character inside quotes. -/
def escape (c : Char) : List Char :=
  if c = '"' then ['\\', '"']
  else if c = '\\' then ['\\', '\\']
  else if c.toNat = 8 then ['\\', 'b']
  else if c.toNat = 9 then ['\\', 't']
  else if c.toNat = 10 then ['\\', 'n']
  else if c.toNat = 12 then ['\\', 'f']
  else if c.toNat = 13 then ['\\', 'r']
  else if c.toNat < 32 then ['\\', 'u', '0', '0', hexDigit (c.toNat / 16), hexDigit (c.toNat % 16)]
  else [c]

/-- A text in quotes. -/
def quote (s : String) : String :=
  String.ofList ('"' :: s.toList.flatMap escape ++ ['"'])

mutual

/-- A value as text. -/
def text : Json → String
  | null => "null"
  | bool b => if b then "true" else "false"
  | number n => n.text
  | string s => quote s
  | array items => "[" ++ ",".intercalate (texts items) ++ "]"
  | object members =>
      "\x7b" ++
        ",".intercalate ((Ordered.ofList (memberTexts members)).entries.map Prod.snd) ++ "\x7d"

/-- The texts of the items of a list. -/
def texts : List Json → List String
  | [] => []
  | item :: rest => text item :: texts rest

/-- The texts of members, each with its name. -/
def memberTexts : List (String × Json) → List (String × String)
  | [] => []
  | (name, value) :: rest => (name, quote name ++ ":" ++ text value) :: memberTexts rest

end

end Json

end Transcode
