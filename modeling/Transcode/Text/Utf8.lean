/-!
# UTF-8

Bytes are read as a list of characters and faults: a fault stands for the longest run of bytes that
begins a character and is not continued, or for one byte that begins none. Strict reading refuses
any fault; forgiving reading shows each as U+FFFD.
-/

set_option autoImplicit false

namespace Transcode

/-- A run of bytes. -/
abbrev Bytes := List UInt8

namespace Utf8

/-- The bytes of a text. -/
def encode (s : String) : Bytes :=
  s.toList.flatMap String.utf8EncodeChar

/-- A character begun: its bits so far, the bytes still owed and the range of the next one. -/
structure Begun where
  bits : Nat
  owed : Nat
  least : UInt8 := 0x80
  greatest : UInt8 := 0xBF

/-- What a byte does where a character may start. -/
inductive Lead where
  | single (c : Char)
  | begins (p : Begun)
  | fault

/-- Reads a byte where a character may start. The ranges of the second byte rule out overlong
forms, surrogates and code points above the last one. -/
def lead (b : UInt8) : Lead :=
  if b < 0x80 then .single (Char.ofNat b.toNat)
  else if b < 0xC2 then .fault
  else if b < 0xE0 then .begins { bits := b.toNat % 32, owed := 1 }
  else if b = 0xE0 then .begins { bits := 0, owed := 2, least := 0xA0 }
  else if b = 0xED then .begins { bits := 13, owed := 2, greatest := 0x9F }
  else if b < 0xF0 then .begins { bits := b.toNat % 16, owed := 2 }
  else if b = 0xF0 then .begins { bits := 0, owed := 3, least := 0x90 }
  else if b < 0xF4 then .begins { bits := b.toNat % 8, owed := 3 }
  else if b = 0xF4 then .begins { bits := 4, owed := 3, greatest := 0x8F }
  else .fault

/-- Reads on from a character begun, or from a place where one may start. A byte that does not
continue the character begun ends it as a fault and is read again as a first byte. -/
def scan : Option Begun → Bytes → List (Option Char)
  | none, [] => []
  | some _, [] => [none]
  | none, b :: rest =>
      match lead b with
      | .single c => some c :: scan none rest
      | .begins p => scan (some p) rest
      | .fault => none :: scan none rest
  | some p, b :: rest =>
      if p.least ≤ b && b ≤ p.greatest then
        let bits := p.bits * 64 + b.toNat % 64
        if p.owed ≤ 1 then some (Char.ofNat bits) :: scan none rest
        else scan (some { bits := bits, owed := p.owed - 1 }) rest
      else
        none ::
          match lead b with
          | .single c => some c :: scan none rest
          | .begins q => scan (some q) rest
          | .fault => none :: scan none rest

/-- The characters of a byte string, `none` for every fault. -/
def runes (bytes : Bytes) : List (Option Char) :=
  scan none bytes

/-- The text of a byte string without faults. -/
def decode? (bytes : Bytes) : Option String :=
  (runes bytes).mapM id |>.map String.ofList

/-- The text of a byte string, U+FFFD for every fault. -/
def decodeLossy (bytes : Bytes) : String :=
  String.ofList ((runes bytes).map fun r => r.getD '�')

end Utf8

end Transcode
