import Transcode.Path
import Transcode.Program
/-!
# File trees

The file system is a value: a finite map from locations to files and directories, and the working
directory from which relative paths start. Paths are walked part by part, so every operation fails
as the system does: a missing part, a file where a directory is needed, a directory where a file is
needed, a name or a path that is too long. Slashes at the end of a path belong to its last part.
Names are texts, so entries whose names are not valid UTF-8 have no counterpart here.
-/

set_option autoImplicit false

namespace Transcode

/-- A place in the tree: the names from the root on. -/
abbrev Location := List String

/-- What a location holds. -/
inductive Node where
  | directory
  | file (data : Bytes) (mode : Nat)
  | program (program : Program) (mode : Nat)

namespace Node

/-- The permissions of a new file. -/
def newMode : Nat := 0o644

/-- A directory. -/
def isDirectory : Node → Bool
  | directory => true
  | _ => false

/-- A file with some permission to execute it. -/
def isExecutable : Node → Bool
  | directory => false
  | file _ mode | program _ mode => mode &&& 0o111 != 0

/-- The bytes of a file; those of a program are not looked at. -/
def data : Node → Bytes
  | file data _ => data
  | _ => []

/-- A file with other contents and the same permissions. -/
def withData (node : Node) (data : Bytes) : Node :=
  match node with
  | file _ mode | program _ mode => file data mode
  | directory => file data newMode

end Node

/-- A file system with a working directory. -/
structure FileTree where
  workingDirectory : Location := []
  nodes : List (Location × Node) := []

namespace FileTree

/-- What a location holds; the root is always a directory. -/
def node? (t : FileTree) (place : Location) : Option Node :=
  if place = [] then some .directory else t.nodes.lookup place

/-- Puts something at a location. -/
def put (t : FileTree) (place : Location) (node : Node) : FileTree :=
  { t with nodes := (place, node) :: t.nodes.filter fun e => e.1 ≠ place }

/-- Empties a location. -/
def drop (t : FileTree) (place : Location) : FileTree :=
  { t with nodes := t.nodes.filter fun e => e.1 ≠ place }

/-- The parts of a path. An empty part says only that a directory stands before it. -/
def parts (path : String) : List String :=
  (Path.cut '/' path.toList).map fun w => if w = [] then "." else String.ofList w

/-- The bytes a path has at least that is refused as too long. -/
def pathLimit : Nat := 4096

/-- The bytes a name has at most. -/
def nameLimit : Nat := 255

/-- Why a path is refused before it is walked, if it is. -/
def pathFault? (path : String) : Option IoError :=
  if path.toList.contains '\x00' then some .nulInPath
  else if path.toList = [] then some .noEntry
  else if pathLimit ≤ path.utf8ByteSize then some .nameTooLong
  else none

/-- A name that no directory can hold. -/
def isOverlong (name : String) : Bool :=
  nameLimit < name.utf8ByteSize

/-- Where a path starts. -/
def start (t : FileTree) (path : String) : Location :=
  if Path.isAbsolute path then [] else t.workingDirectory

/-- Walks on from a location. Every part needs a directory to stand in. -/
def walk (t : FileTree) (place : Location) : List String → Except IoError Location
  | [] => .ok place
  | part :: rest =>
      match t.node? place with
      | none => .error .noEntry
      | some .directory =>
          if part = "." then t.walk place rest
          else if part = ".." then t.walk place.dropLast rest
          else if isOverlong part then .error .nameTooLong
          else t.walk (place ++ [part]) rest
      | some _ => .error .notDirectory

/-- The location of a path, whether it holds something or not. -/
def locate (t : FileTree) (path : String) : Except IoError Location :=
  match pathFault? path with
  | some e => .error e
  | none => t.walk (t.start path) (parts path)

/-- What a path leads to. -/
def stat (t : FileTree) (path : String) : Except IoError Node :=
  match t.locate path with
  | .error e => .error e
  | .ok place =>
      match t.node? place with
      | some node => .ok node
      | none => .error .noEntry

/-- Whether a path leads to something. -/
def pathExists (t : FileTree) (path : String) : Bool :=
  (t.stat path).isOk

/-- Whether a path leads to a directory. -/
def isDirectory (t : FileTree) (path : String) : Bool :=
  match t.stat path with
  | .ok node => node.isDirectory
  | .error _ => false

/-- Whether a path leads to a file that may be executed. -/
def isExecutable (t : FileTree) (path : String) : Bool :=
  match t.stat path with
  | .ok node => node.isExecutable
  | .error _ => false

/-- What a path names: a directory, the last part of the path in it, and whether slashes follow. -/
structure Entry where
  directory : Location
  name : String
  slashed : Bool

namespace Entry

/-- The location of an entry whose last part is a name. -/
def place (e : Entry) : Location :=
  e.directory ++ [e.name]

/-- The last part is no name of its own. -/
def isDots (e : Entry) : Bool :=
  e.name = "." || e.name = ".."

end Entry

/-- A path without the slashes at its end. -/
def bare (path : String) : String :=
  String.ofList (path.toList.reverse.dropWhile (· == '/')).reverse

/-- The entry of a path. The directory it stands in has to be there. -/
def entry (t : FileTree) (path : String) : Except IoError Entry :=
  match pathFault? path with
  | some e => .error e
  | none =>
      match t.walk (t.start path) (parts (bare path)).dropLast with
      | .error e => .error e
      | .ok place =>
          match t.node? place with
          | none => .error .noEntry
          | some .directory =>
              .ok ⟨place, ((parts (bare path)).getLast?).getD ".", path.toList.getLast? == some '/'⟩
          | some _ => .error .notDirectory

/-- What an entry holds. -/
def held (t : FileTree) (e : Entry) : Except IoError (Option Node) :=
  if isOverlong e.name then .error .nameTooLong else .ok (t.node? e.place)

/-- The bytes of a file. A directory can be opened but not read. -/
def read (t : FileTree) (path : String) : Except IoError Bytes :=
  match t.stat path with
  | .error e => .error e
  | .ok .directory => .error .isDirectory
  | .ok node => .ok node.data

/-- Creates an empty file, or empties the one that is there. -/
def create (t : FileTree) (path : String) : Except IoError FileTree :=
  match t.entry path with
  | .error e => .error e
  | .ok entry =>
      if entry.slashed || entry.isDots then .error .isDirectory
      else
        match t.held entry with
        | .error e => .error e
        | .ok none => .ok (t.put entry.place (.file [] Node.newMode))
        | .ok (some .directory) => .error .isDirectory
        | .ok (some node) => .ok (t.put entry.place (node.withData []))

/-- Opens a file for writing at its end; where there is none, an empty one is created. -/
def openAppend (t : FileTree) (path : String) : Except IoError FileTree :=
  match t.entry path with
  | .error e => .error e
  | .ok entry =>
      if entry.slashed || entry.isDots then .error .isDirectory
      else
        match t.held entry with
        | .error e => .error e
        | .ok none => .ok (t.put entry.place (.file [] Node.newMode))
        | .ok (some .directory) => .error .isDirectory
        | .ok (some _) => .ok t

/-- Adds bytes at the end of a file, where there is one. -/
def append (t : FileTree) (path : String) (data : Bytes) : FileTree :=
  match t.locate path with
  | .error _ => t
  | .ok place =>
      match t.node? place with
      | none | some .directory => t
      | some node => t.put place (node.withData (node.data ++ data))

/-- Moves a file to another path, over a file that is there. -/
def rename (t : FileTree) (source target : String) : Except IoError FileTree :=
  match t.entry source, t.entry target with
  | .error e, _ => .error e
  | .ok _, .error e => .error e
  | .ok source, .ok target =>
      if source.isDots || target.isDots then .error .busy
      else
        match t.held source, t.held target with
        | .error e, _ => .error e
        | .ok none, _ => .error .noEntry
        | .ok (some .directory), _ => .error .isDirectory
        | .ok (some _), .error e => .error e
        | .ok (some node), .ok there =>
            if source.slashed || target.slashed then .error .notDirectory
            else
              match there with
              | some .directory => .error .isDirectory
              | _ => .ok ((t.drop source.place).put target.place node)

/-- Removes a file. -/
def removeFile (t : FileTree) (path : String) : Except IoError FileTree :=
  match t.entry path with
  | .error e => .error e
  | .ok entry =>
      if entry.isDots then .error .isDirectory
      else
        match t.held entry with
        | .error e => .error e
        | .ok none => .error .noEntry
        | .ok (some .directory) => .error .isDirectory
        | .ok (some _) => if entry.slashed then .error .notDirectory else .ok (t.drop entry.place)

/-- Makes one directory. -/
def makeDirectory (t : FileTree) (path : String) : Except IoError FileTree :=
  match t.entry path with
  | .error e => .error e
  | .ok entry =>
      if entry.isDots then .error .fileExists
      else
        match t.held entry with
        | .error e => .error e
        | .ok (some _) => .error .fileExists
        | .ok none => .ok (t.put entry.place .directory)

/-- Makes a directory where the parts before it are there; one that exists is left as it is. -/
def ensureDirectory (t : FileTree) (path : String) : Except IoError FileTree :=
  match t.makeDirectory path with
  | .ok t' => .ok t'
  | .error e => if t.isDirectory path then .ok t else .error e

/-- The tree a change leaves: the changed one, or the old one where the change failed. -/
def settle (t : FileTree) : Except IoError FileTree → FileTree × Except IoError Unit
  | .ok t' => (t', .ok ())
  | .error e => (t, .error e)

/-- Makes the directory with these parts, the last part first, and all before it. What was made
before a failure stays. -/
def makeParts (t : FileTree) : List (Path.Component Char) → FileTree × Except IoError Unit
  | [] => (t, .ok ())
  | part :: before =>
      let path := Path.render (part :: before).reverse
      match t.ensureDirectory path with
      | .error .noEntry =>
          match t.makeParts before with
          | (t, .error e) => (t, .error e)
          | (t, .ok ()) => t.settle (t.ensureDirectory path)
      | result => t.settle result

/-- Makes a directory and all before it. -/
def makeDirectories (t : FileTree) (path : String) : FileTree × Except IoError Unit :=
  if path.toList = [] then (t, .ok ())
  else
    match t.ensureDirectory path with
    | .error .noEntry =>
        match t.makeParts (Path.components '/' '.' path.toList).reverse.tail with
        | (t, .error e) => (t, .error e)
        | (t, .ok ()) => t.settle (t.ensureDirectory path)
    | result => t.settle result

/-- The names in a directory. -/
def namesIn (t : FileTree) (directory : Location) : List String :=
  t.nodes.filterMap fun e =>
    if e.1 ≠ [] ∧ e.1.dropLast = directory then e.1.getLast? else none

/-- Lists a directory by name. -/
def list (t : FileTree) (path : String) : Except IoError (List String) :=
  match t.locate path with
  | .error e => .error e
  | .ok place =>
      match t.node? place with
      | none => .error .noEntry
      | some .directory => .ok ((t.namesIn place).mergeSort fun a b => a ≤ b)
      | some _ => .error .notDirectory

/-- The parts of a location below another one. -/
def below? : Location → Location → Option Location
  | [], place => some place
  | _ :: _, [] => none
  | d :: ds, p :: ps => if d = p then below? ds ps else none

/-- Everything below the working directory, by its path from there. -/
def contents (t : FileTree) : List (Location × Node) :=
  t.nodes.filterMap fun e =>
    match below? t.workingDirectory e.1 with
    | some (p :: ps) => some (p :: ps, e.2)
    | _ => none

end FileTree

end Transcode
