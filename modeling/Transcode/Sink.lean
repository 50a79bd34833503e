import Transcode.FileTree
import Transcode.Job
import Transcode.Plugin
/-!
# Sinks

A sink takes frames and is then either committed or aborted. A file sink writes beside the output
path, to the path with `.part` added, and only a commit moves the finished file to its place; so an
output file is there as a whole or not at all. Every request of a file sink can be refused by the
medium it writes to, also one that the file tree would grant.
-/

set_option autoImplicit false

namespace Transcode

/-- The operations of sinks of type `τ`. -/
class Sink (τ : Type) where
  write : Frame → τ → Turn τ Unit
  commit : τ → Turn τ Unit
  abort : τ → Turn τ Unit

/-- A sink that keeps what it is given. -/
structure MemorySink where
  /-- The frames written, the latest first. -/
  written : List Frame := []
  committed : Bool := false
  aborted : Bool := false

namespace MemorySink

/-- The frames in the order in which they were written. -/
def frames (s : MemorySink) : List Frame :=
  s.written.reverse

/-- The bytes of all frames. -/
def contents (s : MemorySink) : Bytes :=
  s.frames.flatMap Frame.data

instance : Sink MemorySink where
  write frame s := { result := .ok (), state := { s with written := frame :: s.written } }
  commit s := { result := .ok (), state := { s with committed := true } }
  abort s := { result := .ok (), state := { s with aborted := true } }

end MemorySink

/-- A refused transfer of bytes to a file, and what becomes of the bytes. -/
structure Shortfall where
  error : IoError
  /-- The bytes at the front that reach the file. -/
  stored : Nat := 0
  /-- The bytes behind those that are lost. -/
  lost : Nat := 0
  /-- The bytes behind those that stay in the buffer. -/
  kept : Nat := 0
deriving Repr, DecidableEq

namespace Shortfall

/-- What reaches the file. -/
def toFile (short : Shortfall) (data : Bytes) : Bytes :=
  data.take short.stored

/-- What stays in the buffer. -/
def toBuffer (short : Shortfall) (data : Bytes) : Bytes :=
  (data.drop (short.stored + short.lost)).take short.kept

end Shortfall

/-- What a medium refuses of that which a file tree grants. A sink makes each of these requests once
at most, apart from the writes. -/
structure Medium where
  create : Option IoError := none
  /-- The answers to the writes, in their order. Further writes are granted. -/
  writes : List (Option Shortfall) := []
  flush : Option Shortfall := none
  sync : Option IoError := none
  rename : Option IoError := none
  remove : Option IoError := none
deriving Repr, DecidableEq

namespace Medium

/-- A request that is granted by the medium is decided by the tree. -/
def grant {α : Type} (refusal : Option IoError) (decided : Except IoError α) : Except IoError α :=
  match refusal with
  | some e => .error e
  | none => decided

/-- The answer to the next write. -/
def nextWrite (m : Medium) : Option Shortfall :=
  m.writes.head?.join

/-- The medium after a write. -/
def wrote (m : Medium) : Medium :=
  { m with writes := m.writes.tail }

end Medium

/-- A sink that writes a file of a file tree. -/
structure FileSink where
  tree : FileTree
  path : String
  keepPartial : Bool
  /-- What the open file is still to receive, the latest first; `none` while no file is open. -/
  buffer : Option (List Bytes) := none
  /-- The bytes of the frames taken, as a natural number in place of a counter of 64 bits. -/
  bytesWritten : Nat := 0
  medium : Medium := {}

namespace FileSink

/-- Where the output stands until it is complete. -/
def partPath (s : FileSink) : String :=
  s.path ++ ".part"

/-- Creates the file, or empties the one that is there, and opens it. -/
def create (s : FileSink) : Except IoError FileSink :=
  (Medium.grant s.medium.create (s.tree.create s.partPath)).map fun tree =>
    { s with tree, buffer := some [] }

/-- The sink with its file open. -/
def opened (s : FileSink) : Except IoError FileSink :=
  match s.buffer with
  | some _ => .ok s
  | none => s.create

/-- What is still to be written to the file. -/
def pending (s : FileSink) : Bytes :=
  (s.buffer.getD []).reverse.flatten

/-- Adds bytes at the end of the file. -/
def store (s : FileSink) (data : Bytes) : FileSink :=
  { s with tree := s.tree.append s.partPath data }

/-- Hands a frame to the open file. -/
def take (s : FileSink) (frame : Frame) : FileSink × Except IoError Unit :=
  let next := { s with medium := s.medium.wrote }
  match s.medium.nextWrite with
  | none =>
      ({ next with
          buffer := some (frame.data :: s.buffer.getD [])
          bytesWritten := s.bytesWritten + frame.size }, .ok ())
  | some short =>
      let data := s.pending ++ frame.data
      ({ next.store (short.toFile data) with buffer := some [short.toBuffer data] },
        .error short.error)

/-- Takes one frame; the first one creates the file. -/
def write (frame : Frame) (s : FileSink) : Turn FileSink Unit :=
  match s.opened with
  | .error e => { result := .error (.io e), state := s }
  | .ok file =>
      let (state, result) := file.take frame
      { result := result.mapError .io, state
        lines := if s.buffer.isNone then [⟨.debug, s!"创建输出: {s.partPath}"⟩] else [] }

/-- Writes out what is buffered and closes the file, whether all of it could be written or not. -/
def flush (s : FileSink) : FileSink × Except IoError Unit :=
  match s.buffer with
  | none => (s, .ok ())
  | some _ =>
      match s.medium.flush with
      | none => ({ s.store s.pending with buffer := none }, .ok ())
      | some short =>
          ({ s.store (short.toFile s.pending) with buffer := none }, .error short.error)

/-- Moves the finished file to its place; without frames the file is created now. -/
def commit (s : FileSink) : Turn FileSink Unit :=
  match s.opened with
  | .error e => { result := .error (.io e), state := s }
  | .ok file =>
      match file.flush with
      | (s, .error e) => { result := .error (.io e), state := s }
      | (s, .ok ()) =>
          match Medium.grant s.medium.sync (Medium.grant s.medium.rename
              (s.tree.rename s.partPath s.path)) with
          | .error e => { result := .error (.io e), state := s }
          | .ok tree =>
              { result := .ok (), state := { s with tree }
                lines := [⟨.info, s!"输出完成: {s.path} ({s.bytesWritten} 字节)"⟩] }

/-- Removes the unfinished file, or leaves it where it is to be kept. -/
def abort (s : FileSink) : Turn FileSink Unit :=
  let (s, flushed) := s.flush
  let warnings : List LogLine :=
    match flushed with
    | .ok () => []
    | .error e => [⟨.warn, s!"刷新未完成输出失败: {e.message}"⟩]
  if s.keepPartial then
    { result := .ok (), state := s
      lines := warnings ++
        if s.tree.pathExists s.partPath then
          [⟨.warn, s!"保留未完成输出: {s.partPath} ({s.bytesWritten} 字节)"⟩]
        else [] }
  else
    match Medium.grant s.medium.remove (s.tree.removeFile s.partPath) with
    | .ok tree =>
        { result := .ok (), state := { s with tree }
          lines := warnings ++ [⟨.info, s!"已删除未完成输出: {s.partPath}"⟩] }
    | .error .noEntry => { result := .ok (), state := s, lines := warnings }
    | .error e => { result := .error (.io e), state := s, lines := warnings }

instance : Sink FileSink where
  write := write
  commit := commit
  abort := abort

/-- The sink of a job. -/
def ofJob (tree : FileTree) (job : Job) : Except Error FileSink :=
  job.keepPartial.map fun keepPartial => { tree, path := job.effectiveOutput, keepPartial }

end FileSink

end Transcode
