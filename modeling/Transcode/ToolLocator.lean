import Transcode.FileTree
import Transcode.Strip
import Transcode.Text.Ascii
/-!
# Finding tools

A tool is found under an explicit path set for it, else at its own name where that name is a path,
else in the first search directory that holds an executable file of that name. An explicit path
that leads to no executable file hides the tool.
-/

set_option autoImplicit false

namespace Transcode

/-- Where to look for tools. -/
structure ToolLocator where
  /-- The directories to search, in order. -/
  search : List String := []
  /-- Explicit paths by tool name in lower case, the latest first. -/
  overrides : List (String × String) := []
  /-- The directories in which the system looks up a command that is a bare name. -/
  commandPath : List String := []

namespace ToolLocator

/-- What stands in front of a tool name in the variable that sets its path. -/
def variableStem : String := "TCODE_TOOL_"

/-- The variable that sets the path of a tool. -/
def overrideVariable (tool : String) : String :=
  variableStem ++ Text.upper tool

/-- Sets the path of a tool; a later setting counts. -/
def addOverride (l : ToolLocator) (tool path : String) : ToolLocator :=
  { l with overrides := (Text.lower tool, path) :: l.overrides }

/-- Takes a variable of the environment that sets the path of a tool. Without a tool name or without
a path it sets nothing. -/
def addVariable (l : ToolLocator) (name value : String) : ToolLocator :=
  match stripStart? variableStem.toList name.toList with
  | some (c :: cs) => if value.toList = [] then l else l.addOverride (String.ofList (c :: cs)) value
  | _ => l

/-- The locator of an environment: the directories of a search path, divided by `:`, and the
variables that set the paths of tools. -/
def ofEnvironment (searchPath : Option String) (assignments : List (String × String)) :
    ToolLocator :=
  let directories :=
    match searchPath with
    | none => []
    | some path => (Path.cut ':' path.toList).map String.ofList
  assignments.foldl (fun l v => l.addVariable v.1 v.2)
    { search := directories, commandPath := directories }

/-- Looks in the search directories. -/
def searchFor? (t : FileTree) (tool : String) (directories : List String) : Option String :=
  (directories.map fun d => Path.join d tool).find? t.isExecutable

/-- The path under which a tool is found. -/
def locate? (l : ToolLocator) (t : FileTree) (tool : String) : Option String :=
  match l.overrides.lookup (Text.lower tool) with
  | some path => if t.isExecutable path then some path else none
  | none =>
      if 1 < Path.componentCount tool ∨ Path.isAbsolute tool then
        if t.isExecutable tool then some tool else none
      else searchFor? t tool l.search

/-- Whether a tool is found. -/
def isAvailable (l : ToolLocator) (t : FileTree) (tool : String) : Bool :=
  (l.locate? t tool).isSome

/-- The bytes an argument has at least that is refused as too long. -/
def argumentLimit : Nat := 131072

/-- Starts the file at a path. A file that is no program cannot be started. -/
def execute (t : FileTree) (args : List String) (path : String) : Except IoError Behaviour :=
  match t.stat path with
  | .error e => .error e
  | .ok node =>
      if !node.isExecutable then .error .permissionDenied
      else if args.any fun arg => argumentLimit ≤ arg.utf8ByteSize then .error .argumentsTooLong
      else
        match node with
        | .program (.runs behaviour) _ => .ok behaviour
        | .program (.unstartable cause) _ => .error cause
        | _ => .error .execFormat

/-- Whether a file that cannot be started for this reason is passed over. -/
def isPassedOver : IoError → Bool
  | .noEntry | .notDirectory | .permissionDenied => true
  | _ => false

/-- Starts the first file that is not passed over. Without one the last failure counts, but a
permission denied before it counts more. -/
def executeFirst (t : FileTree) (args : List String) (failure : IoError) :
    List String → Except IoError Behaviour
  | [] => .error failure
  | path :: rest =>
      match execute t args path with
      | .ok behaviour => .ok behaviour
      | .error e =>
          if isPassedOver e then
            executeFirst t args (if failure = .permissionDenied then failure else e) rest
          else .error e

/-- Starts a located path. A path with a `/` is taken as it is; a bare name is looked up once
more. -/
def start (l : ToolLocator) (t : FileTree) (args : List String) (path : String) :
    Except IoError Behaviour :=
  if args.any fun arg => arg.toList.contains '\x00' then .error .nulInArgument
  else if path.toList.contains '/' then execute t args path
  else executeFirst t args .noEntry (l.commandPath.map fun d => Path.join d path)

end ToolLocator

end Transcode
