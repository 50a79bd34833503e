import Transcode.Text.Utf8
/-!
# Words of 32 bits as bytes

The least significant byte comes first.
-/

set_option autoImplicit false

namespace Transcode.Word

/-- The word of four bytes. -/
def ofBytes (w x y z : UInt8) : UInt32 :=
  UInt32.ofNat (w.toNat + 256 * (x.toNat + 256 * (y.toNat + 256 * z.toNat)))

/-- The bytes of a word. -/
def toBytes (n : UInt32) : Bytes :=
  [UInt8.ofNat n.toNat, UInt8.ofNat (n.toNat / 256), UInt8.ofNat (n.toNat / 65536),
    UInt8.ofNat (n.toNat / 16777216)]

end Transcode.Word
