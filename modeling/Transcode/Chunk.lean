import Transcode.Error
import Transcode.Word
/-!
# Chunks

A chunk is a tag of four bytes, the size of the payload as four bytes with the least significant
first, the payload, and one zero byte if the size is odd. Taking a payload out accepts the chunk
with or without its last pad byte, whatever the value of that byte.
-/

set_option autoImplicit false

namespace Transcode

/-- The four bytes that name a chunk. -/
structure ChunkTag where
  a : UInt8
  b : UInt8
  c : UInt8
  d : UInt8
deriving Repr, DecidableEq

namespace ChunkTag

/-- The bytes of a tag. -/
def toBytes (tag : ChunkTag) : Bytes :=
  [tag.a, tag.b, tag.c, tag.d]

/-- The tag as text, U+FFFD for what is none. -/
def text (tag : ChunkTag) : String :=
  Utf8.decodeLossy tag.toBytes

/-- Compressed video: `00dc`. -/
def video : ChunkTag := ⟨0x30, 0x30, 0x64, 0x63⟩

/-- Audio: `01wb`. -/
def audio : ChunkTag := ⟨0x30, 0x31, 0x77, 0x62⟩

/-- The outermost container: `RIFF`. -/
def riff : ChunkTag := ⟨0x52, 0x49, 0x46, 0x46⟩

/-- A container inside: `LIST`. -/
def list : ChunkTag := ⟨0x4C, 0x49, 0x53, 0x54⟩

end ChunkTag

/-- What stands in front of a payload. -/
structure ChunkHeader where
  tag : ChunkTag
  size : UInt32
deriving Repr, DecidableEq

namespace ChunkHeader

/-- The number of bytes of a header. -/
def length : Nat := 8

/-- Reads the header at the front of a byte string. -/
def parse : Bytes → Except Error ChunkHeader
  | a :: b :: c :: d :: w :: x :: y :: z :: _ => .ok ⟨⟨a, b, c, d⟩, Word.ofBytes w x y z⟩
  | short => .error (.invalidData (.headerIncomplete short.length))

/-- The bytes of a header. -/
def toBytes (header : ChunkHeader) : Bytes :=
  header.tag.toBytes ++ Word.toBytes header.size

/-- The number of pad bytes after the payload. -/
def padding (header : ChunkHeader) : Nat :=
  header.size.toNat % 2

end ChunkHeader

namespace Chunk

/-- Wraps a payload; a payload of `2 ^ 32` bytes or more does not fit. -/
def wrap (tag : ChunkTag) (payload : Bytes) : Except Error Bytes :=
  if payload.length < UInt32.size then
    let header : ChunkHeader := ⟨tag, UInt32.ofNat payload.length⟩
    .ok (header.toBytes ++ payload ++ List.replicate header.padding 0)
  else .error (.invalidData (.payloadTooLarge payload.length))

/-- Takes the payload out of a chunk with the tag `expected`. -/
def unwrap (expected : ChunkTag) (data : Bytes) : Except Error Bytes :=
  match ChunkHeader.parse data with
  | .error e => .error e
  | .ok header =>
      let body := data.drop ChunkHeader.length
      let size := header.size.toNat
      if header.tag ≠ expected then
        .error (.invalidData (.tagMismatch expected.text header.tag.text))
      else if body.length = size ∨ body.length = size + header.padding then
        .ok (body.take size)
      else .error (.invalidData (.sizeMismatch size body.length))

end Chunk

end Transcode
