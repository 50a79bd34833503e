import Transcode.Text.Utf8
/-!
# Frames

A frame is the smallest unit that moves through a job: some bytes and the place they have in their
stream. Sequence numbers of one stream increase strictly.
-/

set_option autoImplicit false

namespace Transcode

/-- A numbered piece of a stream. -/
structure Frame where
  sequence : Nat
  data : Bytes
deriving Repr, DecidableEq

namespace Frame

/-- The number of bytes in the frame. -/
def size (frame : Frame) : Nat :=
  frame.data.length

/-- The frame with other bytes under the same number. -/
def withData (frame : Frame) (data : Bytes) : Frame :=
  { frame with data }

/-- Numbers payloads from `start` on. -/
def number (start : Nat) : List Bytes → List Frame
  | [] => []
  | data :: rest => ⟨start, data⟩ :: number (start + 1) rest

end Frame

end Transcode
