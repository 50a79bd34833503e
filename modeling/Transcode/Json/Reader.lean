import Transcode.Json.Token
import Transcode.Json.Value
/-!
# Reading JSON

Tokens are put together by a machine that keeps the arrays and objects still open, the innermost
first. It accepts one value and nothing after it, and refuses to open more than a fixed number of
containers inside each other.
-/

set_option autoImplicit false

namespace Transcode.Json

/-- A container still open, its contents the latest first. -/
inductive Level where
  | array (items : List Json)
  | object (members : List (String × Json)) (name : String)

/-- What may come next. -/
inductive Want where
  | value
  | itemOrEnd
  | memberOrEnd
  | name
  | colon
  | commaOrEnd
  | nothing (result : Json)

/-- The machine: the open containers and what may come next. -/
structure Builder where
  levels : List Level := []
  want : Want := .value

/-- The containers that may be open at once. -/
def depthLimit : Nat := 127

/-- Puts a complete value where it belongs. -/
def Builder.put (levels : List Level) (v : Json) : Builder :=
  match levels with
  | [] => ⟨[], .nothing v⟩
  | .array items :: outer => ⟨.array (v :: items) :: outer, .commaOrEnd⟩
  | .object members name :: outer => ⟨.object ((name, v) :: members) "" :: outer, .commaOrEnd⟩

/-- Opens a container. -/
def Builder.push (levels : List Level) (level : Level) (want : Want) : Option Builder :=
  if levels.length < depthLimit then some ⟨level :: levels, want⟩ else none

/-- Begins or takes a value. -/
def Builder.value (levels : List Level) : JsonToken → Option Builder
  | .openArray => push levels (.array []) .itemOrEnd
  | .openObject => push levels (.object [] "") .memberOrEnd
  | .null => some (put levels .null)
  | .bool b => some (put levels (.bool b))
  | .number n => some (put levels (.number n))
  | .string s => some (put levels (.string s))
  | _ => none

/-- Takes the name of a member. -/
def Builder.member (levels : List Level) : JsonToken → Option Builder
  | .string s =>
      match levels with
      | .object members _ :: outer => some ⟨.object members s :: outer, .colon⟩
      | _ => none
  | _ => none

/-- Closes the innermost container. -/
def Builder.close (levels : List Level) : JsonToken → Option Builder
  | .closeArray =>
      match levels with
      | .array items :: outer => some (put outer (.array items.reverse))
      | _ => none
  | .closeObject =>
      match levels with
      | .object members _ :: outer => some (put outer (.object members.reverse))
      | _ => none
  | _ => none

/-- Goes on after a comma. -/
def Builder.comma (levels : List Level) : Option Builder :=
  match levels with
  | .array _ :: _ => some ⟨levels, .value⟩
  | .object _ _ :: _ => some ⟨levels, .name⟩
  | [] => none

/-- Takes one token. -/
def Builder.step (b : Builder) (token : JsonToken) : Option Builder :=
  match b.want with
  | .value => value b.levels token
  | .itemOrEnd =>
      match token with
      | .closeArray => close b.levels token
      | _ => value b.levels token
  | .memberOrEnd =>
      match token with
      | .closeObject => close b.levels token
      | _ => member b.levels token
  | .name => member b.levels token
  | .colon =>
      match token with
      | .colon => some ⟨b.levels, .value⟩
      | _ => none
  | .commaOrEnd =>
      match token with
      | .comma => comma b.levels
      | _ => close b.levels token
  | .nothing _ => none

/-- The value of a list of tokens. -/
def ofTokens? (tokens : List JsonToken) : Option Json :=
  (tokens.foldlM Builder.step {}).bind fun b =>
    match b.want with
    | .nothing result => some result
    | _ => none

/-- Reads a JSON text. -/
def parse? (s : String) : Option Json :=
  (JsonToken.scan? s.toList).bind ofTokens?

end Transcode.Json
