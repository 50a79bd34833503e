import Transcode.Cli.Command
import Transcode.Cli.Elapsed
import Transcode.Gzip
/-!
# The program

Takes the files a call may look at into a tree, makes the call on it, writes the changes back and
prints. External tools are neither looked for nor started here. The date is that of the standard
time zone, and packed logs are in the gzip format.
-/

set_option autoImplicit false

namespace Transcode.Disk

open Cli (Arguments Request Report Setting)

/-- The paths a call may look at. -/
def paths (arguments : Arguments) (profile : Profile) : List String :=
  let outputs := [arguments.output?, arguments.rawAudio?, profile.rawAudio?].filterMap id
  [arguments.logDirectory] ++ arguments.input?.toList ++ arguments.profile?.toList ++
    outputs ++ outputs.map (· ++ ".part")

/-- The locations on the way to a path, as far as its text tells. -/
def locations (start : Location) (path : String) : List Location :=
  let step (places : List Location) (part : String) : List Location :=
    let here := places.head?.getD []
    if part = "." then places
    else if part = ".." then here.dropLast :: places
    else (here ++ [part]) :: places
  ((FileTree.parts path).foldl step [if Path.isAbsolute path then [] else start]).reverse

/-- The path of a location. -/
def absolute (place : Location) : String :=
  "/" ++ "/".intercalate place

/-- Takes what stands at a location into the tree. -/
def probe (t : FileTree) (place : Location) : IO FileTree := do
  if place = [] ∨ (t.node? place).isSome then return t
  let path := (← IO.currentDir) / absolute place
  if ← path.isDir then return t.put place .directory
  if ← path.pathExists then
    let data ← IO.FS.readBinFile path
    return t.put place (.file data.toList Node.newMode)
  return t

/-- Takes what stands on the way to some paths into the tree. -/
def load (t : FileTree) (texts : List String) : IO FileTree :=
  (texts.flatMap (locations t.workingDirectory)).foldlM probe t

/-- Takes the entries of a directory into the tree. -/
def loadEntries (t : FileTree) (directory : String) : IO FileTree := do
  let place := ((locations t.workingDirectory directory).getLast?).getD []
  if !t.isDirectory (absolute place) then return t
  let entries ← ((← IO.currentDir) / absolute place).readDir
  entries.foldlM (fun t entry => probe t (place ++ [entry.fileName])) t

/-- The tree of a call: the working directory, all that the arguments and the profile name, and the
entries of the log directory. -/
def treeOf (arguments : Arguments) : IO FileTree := do
  let here := (FileTree.parts (← IO.currentDir).toString).filter (· ≠ ".")
  let t ← load { workingDirectory := here } (absolute here :: paths arguments {})
  let t ← loadEntries t arguments.logDirectory
  match arguments.profile? with
  | none => return t
  | some path =>
      match (Profile.load t path).result with
      | .ok profile => load t (paths arguments profile)
      | .error _ => return t

/-- Writes one location. -/
def write (place : Location) : Node → IO Unit
  | .directory => IO.FS.createDirAll (absolute place)
  | .file data _ => IO.FS.writeBinFile (absolute place) ⟨data.toArray⟩
  | .program _ _ => return ()

/-- Whether a location holds the same directory or the same bytes in two trees. -/
def same (before after : FileTree) (place : Location) : Bool :=
  match before.node? place, after.node? place with
  | none, none => true
  | some a, some b => a.isDirectory == b.isDirectory && a.data == b.data
  | _, _ => false

/-- Writes what differs between two trees. -/
def store (before after : FileTree) : IO Unit := do
  for (place, node) in after.nodes.reverse do
    if !same before after place then write place node
  for (place, _) in before.nodes do
    if (after.node? place).isNone then IO.FS.removeFile (absolute place)

/-- The date of today: a file that is made now bears it. -/
def today : IO Date :=
  IO.FS.withTempFile fun _ path => do
    let seconds := (← path.metadata).modified.sec.toNat
    return Nat.repeat Date.tomorrow (seconds / 86400) ⟨1970, 1, 1⟩

/-- Makes a call on the disk. The time it took is known only after it; the text that tells it is
then put in by making the same call once more. -/
def call (words : List String) (arguments : Arguments) : IO Report := do
  let start ← IO.monoNanosNow
  let tree ← treeOf arguments
  let occasion := { today := ← today, pack := Gzip.pack }
  let setting : Setting := { tree, tools := {}, elapsed := "", occasion }
  store tree (Cli.call setting words).tree
  let stop ← IO.monoNanosNow
  return Cli.call { setting with elapsed := Cli.elapsedText (stop - start) } words

/-- The setting of a call that looks at no file. -/
def nowhere : Setting :=
  { tree := {}, tools := {}, elapsed := "",
    occasion := { today := ⟨1970, 1, 1⟩, pack := Gzip.pack } }

/-- Prints what a call reports. -/
def print (report : Report) : IO UInt32 := do
  report.stdout.forM IO.println
  report.stderr.forM IO.eprintln
  return UInt32.ofNat report.exit

end Transcode.Disk

/-- Runs the command with the words of the command line. -/
def main (words : List String) : IO UInt32 := do
  match Transcode.Cli.Request.ofWords words with
  | .run arguments => Transcode.Disk.print (← Transcode.Disk.call words arguments)
  | _ => Transcode.Disk.print (Transcode.Cli.call Transcode.Disk.nowhere words)
