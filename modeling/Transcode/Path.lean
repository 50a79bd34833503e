/-!
# Paths

A path is a text whose parts are divided by `/`. Empty parts and parts that are a single dot do
not count, except for a dot at the very front of a relative path. The functions that look inside a
path work on any alphabet, so that a path given as bytes is taken apart by the same rules.
-/

set_option autoImplicit false

namespace Transcode.Path

section Alphabet

variable {α : Type} [DecidableEq α]

/-- Cuts a list at every occurrence of `separator`. -/
def cut (separator : α) : List α → List (List α)
  | [] => [[]]
  | c :: cs =>
      if c = separator then [] :: cut separator cs
      else
        match cut separator cs with
        | [] => [[c]]
        | w :: ws => (c :: w) :: ws

/-- A part of a path that counts. -/
inductive Component (α : Type) where
  | root
  | current
  | parent
  | named (name : List α)
deriving DecidableEq

/-- The parts of a path that count, in order. -/
def components (slash dot : α) (path : List α) : List (Component α) :=
  let parts := cut slash path
  let front : List (Component α) :=
    match parts with
    | [] :: _ :: _ => [.root]
    | first :: _ => if first = [dot] then [.current] else []
    | [] => []
  front ++ (parts.filter fun w => w ≠ [] ∧ w ≠ [dot]).map fun w =>
    if w = [dot, dot] then .parent else .named w

/-- The name a path ends in, unless it ends in a root or a dot part. -/
def fileName? (slash dot : α) (path : List α) : Option (List α) :=
  match (components slash dot path).getLast? with
  | some (.named w) => some w
  | _ => none

/-- What follows the last dot of a name, if the dot is not its first character. -/
def extensionOf? (dot : α) (name : List α) : Option (List α) :=
  let ending := name.reverse.takeWhile (· ≠ dot)
  if ending.length + 1 < name.length then some ending.reverse else none

end Alphabet

/-- The extension of a path given as text. -/
def extension? (path : String) : Option String :=
  (fileName? '/' '.' path.toList).bind fun w => (extensionOf? '.' w).map String.ofList

/-- The extension of a path given as bytes. -/
def extensionBytes? (path : List UInt8) : Option (List UInt8) :=
  (fileName? 0x2F 0x2E path).bind (extensionOf? 0x2E)

/-- A path that starts at the root. -/
def isAbsolute (path : String) : Bool :=
  path.toList.head? == some '/'

/-- The number of parts that count. -/
def componentCount (path : String) : Nat :=
  (components '/' '.' path.toList).length

/-- A path below a directory. An absolute path stays as it is, and below the empty path too. -/
def join (directory path : String) : String :=
  if isAbsolute path || directory.toList.isEmpty then path
  else if directory.toList.getLast? == some '/' then directory ++ path
  else directory ++ "/" ++ path

/-- The text of the parts of a path. -/
def render : List (Component Char) → String
  | [] => ""
  | .root :: rest => "/" ++ render rest
  | [c] => text c
  | c :: rest => text c ++ "/" ++ render rest
where
  /-- The text of one part. -/
  text : Component Char → String
    | .root => ""
    | .current => "."
    | .parent => ".."
    | .named w => String.ofList w

end Transcode.Path
