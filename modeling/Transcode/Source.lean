import Transcode.Chunk
import Transcode.FileTree
import Transcode.Job
import Transcode.Plugin
/-!
# Sources

A source delivers frames one by one. A file is opened when the first frame is asked for, and is cut
either into frames of a fixed size or into the chunks with a certain tag. Cutting is a function on
the bytes still to be read: `Splitting.split` gives one frame and the bytes behind it, and
`Splitting.frames` repeats it to the end.
-/

set_option autoImplicit false

namespace Transcode

/-- Splits off the first `n` bytes, if there are that many. -/
def splitExact? (n : Nat) (bytes : Bytes) : Option (Bytes × Bytes) :=
  let front := bytes.take n
  if front.length = n then some (front, bytes.drop n) else none

/-- What stands at the front of a file of chunks. -/
inductive ChunkItem where
  /-- Nothing: the file ends here. -/
  | ended
  /-- The file ends in the middle of a header. -/
  | headerCut (length : Nat)
  /-- The file ends in the middle of what belongs to a header. -/
  | bodyCut
  /-- A chunk that is not read because of its size. -/
  | oversized (header : ChunkHeader) (rest : Bytes)
  /-- The header of a container, whose contents follow. -/
  | container (rest : Bytes)
  /-- A chunk with its payload and pad byte. -/
  | chunk (header : ChunkHeader) (body rest : Bytes)

namespace ChunkItem

/-- The payload a chunk may have at most. -/
def sizeLimit : Nat := 64 * 1024 * 1024

/-- The item that begins with a header. -/
def ofHeader (header : ChunkHeader) (rest : Bytes) : ChunkItem :=
  if header.tag = .riff ∨ header.tag = .list then
    match rest with
    | _ :: _ :: _ :: _ :: inside => container inside
    | _ => bodyCut
  else if sizeLimit < header.size.toNat then oversized header rest
  else
    match splitExact? (header.size.toNat + header.padding) rest with
    | some (body, after) => chunk header body after
    | none => bodyCut

/-- The item at the front. -/
def read : Bytes → ChunkItem
  | [] => ended
  | a :: b :: c :: d :: w :: x :: y :: z :: rest =>
      ofHeader ⟨⟨a, b, c, d⟩, Word.ofBytes w x y z⟩ rest
  | short => headerCut short.length

theorem ofHeader_container_length {header : ChunkHeader} {bytes rest : Bytes}
    (h : ofHeader header bytes = container rest) : rest.length < bytes.length + 8 := by
  unfold ofHeader at h
  split at h
  · split at h
    · cases h
      simp only [List.length_cons]
      omega
    · cases h
  · split at h
    · cases h
    · split at h <;> cases h

theorem ofHeader_chunk_length {header head : ChunkHeader} {bytes body rest : Bytes}
    (h : ofHeader header bytes = chunk head body rest) : rest.length < bytes.length + 8 := by
  unfold ofHeader at h
  split at h
  · split at h <;> cases h
  · split at h
    · cases h
    · split at h
      · next heq =>
          cases h
          unfold splitExact? at heq
          simp only at heq
          split at heq
          · cases heq
            simp only [List.length_drop]
            omega
          · cases heq
      · cases h

/-- What a container holds is shorter than the container. -/
theorem read_container_length {bytes rest : Bytes} (h : read bytes = container rest) :
    rest.length < bytes.length := by
  unfold read at h
  split at h
  · cases h
  · have := ofHeader_container_length h
    simp only [List.length_cons]
    omega
  · cases h

/-- What follows a chunk is shorter than what it stands in front of. -/
theorem read_chunk_length {bytes body rest : Bytes} {header : ChunkHeader}
    (h : read bytes = chunk header body rest) : rest.length < bytes.length := by
  unfold read at h
  split at h
  · cases h
  · have := ofHeader_chunk_length h
    simp only [List.length_cons]
    omega
  · cases h

end ChunkItem

/-- One frame cut off: its bytes, `none` at the end, or a fault; the bytes that are left; and the
bytes that count as read. -/
structure Piece where
  result : Except DataFault (Option Bytes)
  rest : Bytes
  read : Nat

/-- Cuts off the next chunk with the given tag; containers are entered and other chunks skipped. A
part that ends too early is used up but does not count as read. -/
def nextChunk (tag : ChunkTag) (bytes : Bytes) (read : Nat) : Piece :=
  match h : ChunkItem.read bytes with
  | .ended => ⟨.ok none, [], read⟩
  | .headerCut length => ⟨.error (.headerCut length), [], read + length⟩
  | .bodyCut => ⟨.error .chunkCut, [], read + ChunkHeader.length⟩
  | .oversized header rest =>
      ⟨.error (.chunkTooLarge header.tag.text header.size.toNat), rest,
        read + ChunkHeader.length⟩
  | .container rest => nextChunk tag rest (read + ChunkHeader.length + 4)
  | .chunk header body rest =>
      let read := read + ChunkHeader.length + body.length
      if header.tag = tag then ⟨.ok (some (header.toBytes ++ body)), rest, read⟩
      else nextChunk tag rest read
termination_by bytes.length
decreasing_by
  · exact ChunkItem.read_container_length h
  · exact ChunkItem.read_chunk_length h

/-- How a file is cut into frames. -/
inductive Splitting where
  | fixed (size : Nat)
  | chunks (tag : ChunkTag)
deriving DecidableEq

namespace Splitting

/-- Cuts off one frame. A fixed size of zero counts as one. -/
def split (s : Splitting) (bytes : Bytes) : Piece :=
  match s with
  | fixed size =>
      let front := bytes.take (max size 1)
      if front = [] then ⟨.ok none, [], 0⟩
      else ⟨.ok (some front), bytes.drop (max size 1), front.length⟩
  | chunks tag => nextChunk tag bytes 0

theorem nextChunk_rest_length {tag : ChunkTag} {bytes : Bytes} {read : Nat} {data : Bytes}
    (h : (nextChunk tag bytes read).result = .ok (some data)) :
    (nextChunk tag bytes read).rest.length < bytes.length := by
  induction bytes, read using nextChunk.induct tag with
  | case1 bytes read heq => rw [nextChunk] at h; split at h <;> simp_all
  | case2 bytes read length heq => rw [nextChunk] at h; split at h <;> simp_all
  | case3 bytes read heq => rw [nextChunk] at h; split at h <;> simp_all
  | case4 bytes read header rest heq => rw [nextChunk] at h; split at h <;> simp_all
  | case5 bytes read rest heq ih =>
      have step : nextChunk tag bytes read =
          nextChunk tag rest (read + ChunkHeader.length + 4) := by
        conv => lhs; rw [nextChunk]
        split <;> simp_all
      rw [step] at h ⊢
      exact Nat.lt_trans (ih h) (ChunkItem.read_container_length heq)
  | case6 bytes read header body rest heq htag =>
      have step : (nextChunk tag bytes read).rest = rest := by
        conv => lhs; rw [nextChunk]
        split <;> simp_all
      rw [step]
      exact ChunkItem.read_chunk_length heq
  | case7 bytes read header body rest heq read' htag ih =>
      have step : nextChunk tag bytes read =
          nextChunk tag rest (read + ChunkHeader.length + body.length) := by
        conv => lhs; rw [nextChunk]
        split <;> simp_all
      rw [step] at h ⊢
      exact Nat.lt_trans (ih h) (ChunkItem.read_chunk_length heq)

/-- A frame cut off leaves less to be read. -/
theorem split_rest_length {s : Splitting} {bytes data : Bytes}
    (h : (s.split bytes).result = .ok (some data)) :
    (s.split bytes).rest.length < bytes.length := by
  cases s with
  | chunks tag => exact nextChunk_rest_length h
  | fixed size =>
      simp only [split] at h ⊢
      split at h
      · simp at h
      · next hne =>
          rw [if_neg hne]
          have : bytes ≠ [] := by
            intro hb
            simp [hb] at hne
          have := List.length_pos_iff.2 this
          simp only [List.length_drop]
          omega

/-- All frames of a file, numbered from `next` on, and the bytes read for them. A fault comes last
and ends the file. -/
def frames (s : Splitting) (next : Nat) (bytes : Bytes) : List (Except Error Frame) × Nat :=
  match _h : s.split bytes with
  | ⟨.error fault, _, read⟩ => ([.error (.invalidData fault)], read)
  | ⟨.ok none, _, read⟩ => ([], read)
  | ⟨.ok (some data), rest, read⟩ =>
      let after := s.frames (next + 1) rest
      (.ok ⟨next, data⟩ :: after.1, read + after.2)
termination_by bytes.length
decreasing_by
  have := @split_rest_length s bytes data (by rw [_h])
  rwa [_h] at this

end Splitting

/-- A file that is read from front to back. -/
structure FileSource where
  path : String
  splitting : Splitting
  /-- The bytes not yet read, once the file is open. A directory can be opened but every attempt to
  read from it is refused. -/
  content : Option (Except IoError Bytes) := none
  next : Nat := 1
  bytesRead : Nat := 0

namespace FileSource

/-- What opening the file logs. -/
def openLine (s : FileSource) : LogLine :=
  match s.splitting with
  | .fixed _ => ⟨.debug, s!"打开输入: {s.path}"⟩
  | .chunks _ => ⟨.debug, s!"打开分块输入: {s.path}"⟩

/-- Opens the file, unless it is open. -/
def opened (s : FileSource) (t : FileTree) : Turn FileSource (Except IoError Bytes) :=
  match s.content with
  | some content => { result := .ok content, state := s }
  | none =>
      match t.stat s.path with
      | .error e => { result := .error (.io e), state := s }
      | .ok node =>
          let content : Except IoError Bytes :=
            if node.isDirectory then .error .isDirectory else .ok node.data
          { result := .ok content, state := { s with content := some content }
            lines := [s.openLine] }

/-- The next frame, `none` at the end. -/
def pull (s : FileSource) (t : FileTree) : Turn FileSource (Option Frame) :=
  let start := s.opened t
  match start.result with
  | .error e => { result := .error e, state := start.state, lines := start.lines }
  | .ok (.error e) => { result := .error (.io e), state := start.state, lines := start.lines }
  | .ok (.ok bytes) =>
      let piece := s.splitting.split bytes
      let read : FileSource :=
        { start.state with content := some (.ok piece.rest), bytesRead := s.bytesRead + piece.read }
      match piece.result with
      | .error fault =>
          { result := .error (.invalidData fault), state := read, lines := start.lines }
      | .ok none => { result := .ok none, state := read, lines := start.lines }
      | .ok (some data) =>
          { result := .ok (some ⟨s.next, data⟩), state := { read with next := s.next + 1 }
            lines := start.lines }

end FileSource

/-- Where frames come from: a file, or messages prepared in memory. -/
inductive Source where
  | file (s : FileSource)
  | memory (queue : List (Except Error Frame)) (bytesRead : Nat)

/-- All a source delivers: frames, ended by the end of the input or by one failure. -/
structure Feed where
  messages : List (Except Error Frame)
  bytesRead : Nat
  lines : List LogLine := []

namespace Source

/-- The bytes of the frames delivered so far. -/
def bytesRead : Source → Nat
  | file s => s.bytesRead
  | memory _ n => n

/-- The next frame, `none` at the end. -/
def pull (t : FileTree) : Source → Turn Source (Option Frame)
  | file s =>
      let turn := s.pull t
      { result := turn.result, state := file turn.state, lines := turn.lines }
  | memory [] n => { result := .ok none, state := memory [] n }
  | memory (.error e :: rest) n => { result := .error e, state := memory rest n }
  | memory (.ok frame :: rest) n =>
      { result := .ok (some frame), state := memory rest (n + frame.size) }

/-- The messages up to the first failure. -/
def untilFailure : List (Except Error Frame) → List (Except Error Frame)
  | [] => []
  | .error e :: _ => [.error e]
  | .ok frame :: rest => .ok frame :: untilFailure rest

/-- The bytes of the frames among messages. -/
def payloadSize (messages : List (Except Error Frame)) : Nat :=
  messages.foldl (fun n m => match m with
    | .ok frame => n + frame.size
    | .error _ => n) 0

/-- Reads a source to its end. -/
def feed (t : FileTree) : Source → Feed
  | memory queue n =>
      let messages := untilFailure queue
      { messages, bytesRead := n + payloadSize messages }
  | file s =>
      let start := s.opened t
      match start.result with
      | .error e => { messages := [.error e], bytesRead := s.bytesRead }
      | .ok (.error e) =>
          { messages := [.error (.io e)], bytesRead := s.bytesRead, lines := start.lines }
      | .ok (.ok bytes) =>
          let (messages, read) := s.splitting.frames s.next bytes
          { messages, bytesRead := s.bytesRead + read, lines := start.lines }

/-- The tag of the chunks that carry a medium. -/
def chunkTag : MediaType → ChunkTag
  | .video => .video
  | .audio => .audio

/-- The source of a job: the first plugin decides how the input is cut. -/
def ofJob (job : Job) : Except Error Source :=
  match job.first.framing with
  | .chunked => .ok (file { path := job.input, splitting := .chunks (chunkTag job.first.media) })
  | .raw => job.frameSize.map fun size => file { path := job.input, splitting := .fixed size }

end Source

end Transcode
