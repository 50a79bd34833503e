import Transcode.FileTree
import Transcode.Log
import Transcode.Log.FileName
import Transcode.Log.Settings
/-!
# Log clean-up

Once a day the log directory is gone through: logs older than the retention are removed, and those
of earlier days are packed, if the settings ask for it. Files with other names are left alone. The
entries are handled one by one in the order in which they are listed, and the first failure ends
the clean-up.

The `Occasion` of a clean-up fixes what the settings and the files do not: the day, the packing, the
order of the listing, and the requests that the system refuses. Whether a path exists is answered by
the file tree alone. Names are texts, so there is no counterpart to a name that is not valid UTF-8,
which a clean-up passes over.
-/

set_option autoImplicit false

namespace Transcode

/-- What a clean-up did. -/
structure CleanupReport where
  removed : Nat := 0
  compressed : Nat := 0
deriving Repr, DecidableEq

/-- Why a clean-up ended early. -/
inductive CleanupError where
  /-- The first day to be kept is not in the calendar. -/
  | beyondCalendar
  | unlisted (directory : String) (cause : IoError)
  | unremoved (path : String) (cause : IoError)
  | unopened (path : String) (cause : IoError)
  | uncreated (path : String) (cause : IoError)
  | io (cause : IoError)
deriving Repr, DecidableEq

/-- The wording of a failed clean-up. A first day beyond the calendar is no error with a wording: it
ends the computation. -/
def CleanupError.message? : CleanupError → Option String
  | .beyondCalendar => none
  | .unlisted directory cause => some s!"读取日志目录失败: {directory}: {cause.message}"
  | .unremoved path cause => some s!"删除过期日志失败: {path}: {cause.message}"
  | .unopened path cause => some s!"打开日志失败: {path}: {cause.message}"
  | .uncreated path cause => some s!"创建压缩文件失败: {path}: {cause.message}"
  | .io cause => some cause.message

namespace Cleanup

/-- The days a retention may have, in either direction. -/
def retentionLimit : Nat := 106751991167

/-- The number of the first day to be kept, if the calendar has it. -/
def cutoff? (settings : LogSettings) (today : Date) : Option Int :=
  let n := today.dayNumber - settings.retentionDays
  if settings.retentionDays.natAbs ≤ retentionLimit ∧ Date.inCalendar n then some n else none

/-- What is to be done with an entry. -/
inductive Action where
  | leave
  | remove
  | compress
deriving Repr, DecidableEq

/-- What is to be done with an entry of this name. -/
def action (settings : LogSettings) (today : Date) (cutoff : Int) (name : String) : Action :=
  match LogFile.parse? settings.stem name with
  | none => .leave
  | some (date, packed) =>
      if date.dayNumber < cutoff then .remove
      else if settings.compressHistory && !packed && date.dayNumber < today.dayNumber then .compress
      else .leave

/-- A refusal by the system: its error, and the bytes left in a packed file that was being filled.
-/
structure Refusal where
  error : IoError
  left : Bytes := []
deriving Repr, DecidableEq

/-- The circumstances of a clean-up. -/
structure Occasion where
  today : Date
  /-- The packing of byte strings. -/
  pack : Bytes → Bytes
  /-- The order in which the entries of the directory are listed. -/
  arrange : List String → List String := id
  /-- The answers of the system to the requests in turn; further requests are granted. -/
  answers : List (Option Refusal) := []

/-- A clean-up under way. -/
structure State where
  tree : FileTree
  report : CleanupReport := {}
  answers : List (Option Refusal) := []

namespace State

/-- The answer to the next request. -/
def ask (s : State) : State × Option Refusal :=
  ({ s with answers := s.answers.tail }, s.answers.head?.join)

/-- The result of a request, unless the system refuses it. -/
def attempt {α : Type} (s : State) (result : Except IoError α) : State × Except IoError α :=
  match s.ask with
  | (s, some refusal) => (s, .error refusal.error)
  | (s, none) => (s, result)

/-- Adds bytes at the end of a file. -/
def append (s : State) (path : String) (data : Bytes) : State :=
  { s with tree := s.tree.append path data }

end State

/-- Fills a packed file: the contents of the node are copied into it, and the packing is finished.
A directory cannot be read, and its packed file holds no data. -/
def fill (pack : Bytes → Bytes) (s : State) (packed : String) (node : Node) :
    State × Except IoError Unit :=
  match s.ask with
  | (s, some refusal) => (s.append packed refusal.left, .error refusal.error)
  | (s, none) =>
      if node.isDirectory then (s.append packed (pack []), .error .isDirectory)
      else
        match s.ask with
        | (s, some refusal) => (s.append packed refusal.left, .error refusal.error)
        | (s, none) => (s.append packed (pack node.data), .ok ())

/-- Packs a file beside itself and removes it. Where the packed file is there already, nothing is
done. A packed file that could not be filled stays behind. -/
def compress (pack : Bytes → Bytes) (s : State) (path : String) :
    State × Except CleanupError Unit :=
  let packed := path ++ ".gz"
  if s.tree.pathExists packed then (s, .ok ())
  else
    match s.attempt (s.tree.stat path) with
    | (s, .error e) => (s, .error (.unopened path e))
    | (s, .ok node) =>
        match s.attempt (s.tree.create packed) with
        | (s, .error e) => (s, .error (.uncreated packed e))
        | (s, .ok tree) =>
            match fill pack { s with tree } packed node with
            | (s, .error e) => (s, .error (.io e))
            | (s, .ok ()) =>
                match s.attempt (s.tree.removeFile path) with
                | (s, .error e) => (s, .error (.io e))
                | (s, .ok tree) =>
                    let report := { s.report with compressed := s.report.compressed + 1 }
                    ({ s with tree, report }, .ok ())

/-- Removes a file. -/
def remove (s : State) (path : String) : State × Except CleanupError Unit :=
  match s.attempt (s.tree.removeFile path) with
  | (s, .error e) => (s, .error (.unremoved path e))
  | (s, .ok tree) =>
      ({ s with tree, report := { s.report with removed := s.report.removed + 1 } }, .ok ())

/-- Performs an action on a file. -/
def perform (pack : Bytes → Bytes) (s : State) (path : String) :
    Action → State × Except CleanupError Unit
  | .leave => (s, .ok ())
  | .remove => remove s path
  | .compress => compress pack s path

/-- Reads the next entry of a directory and performs the action that is chosen for it. -/
def step (pack : Bytes → Bytes) (directory : String) (choose : String → Action) (s : State)
    (name : String) : State × Except CleanupError Unit :=
  match s.attempt (.ok name) with
  | (s, .error e) => (s, .error (.io e))
  | (s, .ok name) => perform pack s (Path.join directory name) (choose name)

/-- Handles entries in their order. -/
def steps (pack : Bytes → Bytes) (directory : String) (choose : String → Action) (s : State) :
    List String → State × Except CleanupError Unit
  | [] => (s, .ok ())
  | name :: rest =>
      match step pack directory choose s name with
      | (s, .error e) => (s, .error e)
      | (s, .ok ()) => steps pack directory choose s rest

/-- Goes through a directory to the end of its listing. -/
def sweep (o : Occasion) (directory : String) (choose : String → Action) (t : FileTree) :
    FileTree × Except CleanupError CleanupReport :=
  match State.attempt { tree := t, answers := o.answers } (t.list directory) with
  | (s, .error e) => (s.tree, .error (.unlisted directory e))
  | (s, .ok names) =>
      match steps o.pack directory choose s (o.arrange names) with
      | (s, .error e) => (s.tree, .error e)
      | (s, .ok ()) =>
          match s.attempt (.ok s.report) with
          | (s, .error e) => (s.tree, .error (.io e))
          | (s, .ok report) => (s.tree, .ok report)

/-- Cleans the log directory up. -/
def runOrdered (o : Occasion) (settings : LogSettings) (t : FileTree) :
    FileTree × Except CleanupError CleanupReport :=
  if t.pathExists settings.directory then
    match cutoff? settings o.today with
    | none => (t, .error .beyondCalendar)
    | some cutoff => sweep o settings.directory (action settings o.today cutoff) t
  else (t, .ok {})

/-- The lines that are logged about a clean-up. -/
def logLines : Except CleanupError CleanupReport → List LogLine
  | .ok report =>
      if report = {} then []
      else [⟨.debug, s!"日志清理: 删除 {report.removed} 个, 压缩 {report.compressed} 个"⟩]
  | .error e => (e.message?.map fun text => ⟨.error, s!"日志清理失败: {text}"⟩).toList

end Cleanup

end Transcode
