import Transcode.Error
import Transcode.Path
import Transcode.Text.Ascii
import Transcode.Text.Blank
import Transcode.Text.Utf8
/-!
# Format tags

A format tag names a container or a coding, such as `AVI` or `OGG`. It is kept trimmed and in upper
case, so two spellings of one format are one tag. A tag read from an option must be written in
letters, digits and `_`; a tag declared by a plugin may be any text.
-/

set_option autoImplicit false

namespace Transcode

/-- The name of a container or coding. -/
structure FormatTag where
  text : String
deriving Repr, DecidableEq

namespace FormatTag

/-- The tag of a text: trimmed, in upper case. -/
def ofText (s : String) : FormatTag :=
  ⟨Text.upper (Text.trim s)⟩

/-- A character a tag from an option may hold. -/
def isTagChar (c : Char) : Bool :=
  Text.isAsciiAlphanum c || c == '_'

/-- Reads the tag of an option. -/
def parse (s : String) : Except Error FormatTag :=
  let tag := ofText s
  if tag.text.toList = [] then .error (.configuration .emptyFormat)
  else if tag.text.toList.all isTagChar then .ok tag
  else .error (.configuration (.invalidFormat s))

/-- The tag that goes with a file name extension, in any letter case. -/
def ofExtension? (extension : String) : Option FormatTag :=
  match Text.lower extension with
  | "avi" => some ⟨"AVI"⟩
  | "ogg" | "oga" => some ⟨"OGG"⟩
  | "divx" | "m4v" | "cmp" => some ⟨"DIVX"⟩
  | "wav" => some ⟨"WAV"⟩
  | "pcm" | "raw" | "yuv" => some ⟨"RAW"⟩
  | _ => none

/-- The tag that goes with the extension of a path. -/
def ofPath? (path : String) : Option FormatTag :=
  (Path.extension? path).bind ofExtension?

/-- The tag that goes with the extension of a path given as bytes; bytes that are no text have no
tag. -/
def ofPathBytes? (path : Bytes) : Option FormatTag :=
  ((Path.extensionBytes? path).bind Utf8.decode?).bind ofExtension?

/-- Tags are ordered by their bytes, which is the order of their code points. -/
def compare (a b : FormatTag) : Ordering :=
  Ord.compare a.text b.text

end FormatTag

end Transcode
