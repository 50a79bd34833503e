import Transcode.Deflate
import Transcode.Strip
import Transcode.Word
/-!
# Gzip

A gzip stream is a header, a deflate stream, and a check sum and the length of what was packed.
Packing writes a plain stream behind the shortest header, one of the many streams that unpack to the
same bytes. Unpacking reads any stream, checks it, and leaves out what follows; it takes back what
was packed (`unpack?_pack`).
-/

set_option autoImplicit false

namespace Transcode.Gzip

/-- One step of the check sum: a bit is shifted out, and a one folds the polynomial in. -/
def shift (c : UInt32) : UInt32 :=
  if c &&& 1 = 1 then (c >>> 1) ^^^ 0xEDB88320 else c >>> 1

/-- Takes a byte into the check sum. -/
def absorb (c : UInt32) (b : UInt8) : UInt32 :=
  (List.range 8).foldl (fun c _ => shift c) (c ^^^ UInt32.ofNat b.toNat)

/-- The check sum of a byte string. -/
def checkSum (data : Bytes) : UInt32 :=
  data.foldl absorb 0xFFFFFFFF ^^^ 0xFFFFFFFF

/-- The header of a packed stream: no flags, no time, no system. -/
def header : Bytes :=
  [0x1F, 0x8B, 8, 0, 0, 0, 0, 0, 0, 0xFF]

/-- What every stream ends with: the check sum and the length of the bytes. -/
def trailer (data : Bytes) : Bytes :=
  Word.toBytes (checkSum data) ++ Word.toBytes (UInt32.ofNat data.length)

/-- Packs a byte string. -/
def pack (data : Bytes) : Bytes :=
  header ++ Deflate.store data ++ trailer data

/-! ## Unpacking -/

/-- Leaves out the first `n` bytes, which have to be there. -/
def skip? (n : Nat) (bytes : Bytes) : Option Bytes :=
  if n ≤ bytes.length then some (bytes.drop n) else none

/-- Leaves out a field that says its length in front. -/
def skipField? : Bytes → Option Bytes
  | a :: b :: rest => skip? (a.toNat + 256 * b.toNat) rest
  | _ => none

/-- The bytes a text of the header has at most. -/
def textLimit : Nat := 65535

/-- Leaves out a text of at most `room` bytes that a zero ends. -/
def skipText? (room : Nat) : Bytes → Option Bytes
  | [] => none
  | b :: rest =>
      if b = 0 then some rest else if room = 0 then none else skipText? (room - 1) rest

/-- Leaves out the check sum of the header, which `whole` begins with. -/
def skipCheck? (whole bytes : Bytes) : Option Bytes :=
  let sum := (checkSum (whole.take (whole.length - bytes.length))).toNat
  stripStart? (Deflate.half sum) bytes

/-- Takes a step if a flag is set. -/
def optionally (flags flag : UInt8) (step : Bytes → Option Bytes) (bytes : Bytes) : Option Bytes :=
  if flags &&& flag = 0 then some bytes else step bytes

/-- Leaves out a header. Its flags say which of a field, a name, a remark and a check sum follow. -/
def skipHeader? (bytes : Bytes) : Option Bytes :=
  match bytes with
  | 0x1F :: 0x8B :: 8 :: flags :: rest =>
      if flags &&& 0xE0 = 0 then do
        let rest ← skip? 6 rest
        let rest ← optionally flags 4 skipField? rest
        let rest ← optionally flags 8 (skipText? textLimit) rest
        let rest ← optionally flags 16 (skipText? textLimit) rest
        optionally flags 2 (skipCheck? bytes) rest
      else none
  | _ => none

/-- Unpacks the stream at the front. -/
def unpack? (bytes : Bytes) : Option Bytes := do
  let rest ← skipHeader? bytes
  let (data, rest) ← Deflate.inflate? rest
  let _ ← stripStart? (trailer data) rest
  return data

/-- Unpacking takes back what was packed. -/
theorem unpack?_pack (data : Bytes) : unpack? (pack data) = some data := by
  have hheader (rest : Bytes) : skipHeader? (header ++ rest) = some rest := by
    simp [header, skipHeader?, skip?, optionally]
  have htrailer := stripStart?_append (trailer data) []
  rw [List.append_nil] at htrailer
  rw [unpack?, pack, List.append_assoc, hheader]
  simp [Deflate.inflate?_store, htrailer]

end Transcode.Gzip
