import Transcode.Json.Number
/-!
# JSON tokens

The text is read one character at a time by a machine that is between tokens, inside a quoted text,
or inside a run of letters and digits, which is then a number or one of the three words. A code
point outside the basic plane is written as two escapes, the lead and then the trail.
-/

set_option autoImplicit false

namespace Transcode

/-- The smallest pieces of a JSON text. -/
inductive JsonToken where
  | openArray
  | closeArray
  | openObject
  | closeObject
  | comma
  | colon
  | null
  | bool (b : Bool)
  | number (n : JsonNumber)
  | string (s : String)

namespace JsonToken

/-- Where the reading stands. `lead` is the first half of a code point whose second half must
follow; `read` holds the characters of the token so far, the latest first. -/
inductive Mode where
  | between
  | word (read : List Char)
  | quoted (lead : Option Nat) (read : List Char)
  | escaped (lead : Option Nat) (read : List Char)
  | code (lead : Option Nat) (read : List Char) (value digits : Nat)

/-- The machine: its mode and the tokens so far, the latest first. -/
structure Machine where
  mode : Mode := .between
  tokens : List JsonToken := []

/-- A character of a number or word. -/
def isWordChar (c : Char) : Bool :=
  c.isAlphanum || c == '-' || c == '+' || c == '.'

/-- White space between tokens. -/
def isSpace (c : Char) : Bool :=
  c == ' ' || c == '\t' || c == '\n' || c == '\r'

/-- The token of a run of word characters. -/
def ofWord (cs : List Char) : Option JsonToken :=
  if cs = "null".toList then some .null
  else if cs = "true".toList then some (.bool true)
  else if cs = "false".toList then some (.bool false)
  else (JsonNumber.parse? cs).map .number

/-- The token of a punctuation mark. -/
def ofMark (c : Char) : Option JsonToken :=
  if c = '[' then some .openArray
  else if c = ']' then some .closeArray
  else if c = '\x7b' then some .openObject
  else if c = '\x7d' then some .closeObject
  else if c = ',' then some .comma
  else if c = ':' then some .colon
  else none

/-- The character a short escape stands for. -/
def ofEscape (c : Char) : Option Char :=
  if c = '"' ∨ c = '\\' ∨ c = '/' then some c
  else if c = 'b' then some (Char.ofNat 8)
  else if c = 'f' then some (Char.ofNat 12)
  else if c = 'n' then some '\n'
  else if c = 'r' then some '\r'
  else if c = 't' then some '\t'
  else none

/-- The value of a digit of base sixteen. -/
def hexValue (c : Char) : Option Nat :=
  if c.isDigit then some (c.toNat - 48)
  else if 'a' ≤ c ∧ c ≤ 'f' then some (c.toNat - 87)
  else if 'A' ≤ c ∧ c ≤ 'F' then some (c.toNat - 55)
  else none

/-- The first half of a code point. -/
def isLead (n : Nat) : Bool :=
  0xD800 ≤ n && n < 0xDC00

/-- The second half of a code point. -/
def isTrail (n : Nat) : Bool :=
  0xDC00 ≤ n && n < 0xE000

/-- Takes a complete numeric escape. -/
def takeCode (lead : Option Nat) (read : List Char) (n : Nat) : Option Mode :=
  match lead with
  | none =>
      if isLead n then some (.quoted (some n) read)
      else if isTrail n then none
      else some (.quoted none (Char.ofNat n :: read))
  | some l =>
      if isTrail n then
        some (.quoted none (Char.ofNat (0x10000 + (l - 0xD800) * 1024 + (n - 0xDC00)) :: read))
      else none

/-- Reads a character between tokens. -/
def start (tokens : List JsonToken) (c : Char) : Option Machine :=
  if isSpace c then some ⟨.between, tokens⟩
  else if c = '"' then some ⟨.quoted none [], tokens⟩
  else if isWordChar c then some ⟨.word [c], tokens⟩
  else (ofMark c).map fun t => ⟨.between, t :: tokens⟩

/-- Reads one character. -/
def step (s : Machine) (c : Char) : Option Machine :=
  match s.mode with
  | .between => start s.tokens c
  | .word read =>
      if isWordChar c then some ⟨.word (c :: read), s.tokens⟩
      else (ofWord read.reverse).bind fun t => start (t :: s.tokens) c
  | .quoted lead read =>
      if c = '\\' then some ⟨.escaped lead read, s.tokens⟩
      else if lead.isSome then none
      else if c = '"' then some ⟨.between, .string (String.ofList read.reverse) :: s.tokens⟩
      else if c.toNat < 32 then none
      else some ⟨.quoted none (c :: read), s.tokens⟩
  | .escaped lead read =>
      if c = 'u' then some ⟨.code lead read 0 0, s.tokens⟩
      else if lead.isSome then none
      else (ofEscape c).map fun e => ⟨.quoted none (e :: read), s.tokens⟩
  | .code lead read value digits =>
      (hexValue c).bind fun d =>
        let value := value * 16 + d
        if digits < 3 then some ⟨.code lead read value (digits + 1), s.tokens⟩
        else (takeCode lead read value).map fun mode => ⟨mode, s.tokens⟩

/-- The tokens at the end of the text. -/
def finish (s : Machine) : Option (List JsonToken) :=
  match s.mode with
  | .between => some s.tokens.reverse
  | .word read => (ofWord read.reverse).map fun t => (t :: s.tokens).reverse
  | _ => none

/-- The tokens of a text. -/
def scan? (cs : List Char) : Option (List JsonToken) :=
  (cs.foldlM step {}).bind finish

end JsonToken

end Transcode
