/-!
# Letter case and padding

Case changes touch the ASCII letters only; every other character stays as it is. Padding counts
characters, so a Chinese word of two characters is two columns wide.
-/

set_option autoImplicit false

namespace Transcode.Text

/-- The text with `A` to `Z` made lower case. -/
def lower (s : String) : String :=
  String.ofList (s.toList.map Char.toLower)

/-- The text with `a` to `z` made upper case. -/
def upper (s : String) : String :=
  String.ofList (s.toList.map Char.toUpper)

/-- An ASCII letter or digit. -/
def isAsciiAlphanum (c : Char) : Bool :=
  c.isUpper || c.isLower || c.isDigit

/-- A run of `n` spaces. -/
def spaces (n : Nat) : String :=
  String.ofList (List.replicate n ' ')

/-- Fills up on the right to at least `width` characters. -/
def padRight (width : Nat) (s : String) : String :=
  s ++ spaces (width - s.toList.length)

/-- Fills up on the left to at least `width` characters. -/
def padLeft (width : Nat) (s : String) : String :=
  spaces (width - s.toList.length) ++ s

/-- Fills up on both sides to at least `width` characters; an odd space goes to the right. -/
def padCenter (width : Nat) (s : String) : String :=
  let missing := width - s.toList.length
  spaces (missing / 2) ++ s ++ spaces (missing - missing / 2)

end Transcode.Text
