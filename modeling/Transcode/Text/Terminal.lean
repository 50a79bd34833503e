/-!
# Text for a terminal

A terminal takes some control characters for commands. In text that comes from outside they are
written as escapes, so that they are seen and do nothing. Tabs and line ends stay as they are.
-/

set_option autoImplicit false

namespace Transcode.Text

/-- A control character of one byte on which a terminal acts. -/
def isCommandByte (c : Char) : Bool :=
  c = '\x07' || c = '\x08' || c = '\x0c' || c = '\x1b' || c = '\x7f'

/-- A control character above the ASCII range. -/
def isHighControl (c : Char) : Bool :=
  0x80 ≤ c.toNat && c.toNat ≤ 0x9f

/-- A number below 256 in two hexadecimal digits. -/
def hexPair (n : Nat) : List Char :=
  [(n / 16).digitChar, (n % 16).digitChar]

/-- A character as it is shown. -/
def shownChar (c : Char) : List Char :=
  if isCommandByte c then ['\\', 'x'] ++ hexPair c.toNat
  else if isHighControl c then ['\\', 'u', '\x7b'] ++ hexPair c.toNat ++ ['\x7d']
  else [c]

/-- A text as it is shown. -/
def shown (s : String) : String :=
  String.ofList (s.toList.flatMap shownChar)

end Transcode.Text
