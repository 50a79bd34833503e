import Transcode.FormatTag
import Transcode.MediaType
/-!
# Plugin descriptors

A descriptor says what a plugin is able to do: its formats in order of preference, the tools it
needs, its limits and the options it takes. It is drafted step by step and then checked once; a
checked descriptor has a name and at least one format, and no format is blank.
-/

set_option autoImplicit false

namespace Transcode

/-- How the input of a decoder is cut into frames. -/
inductive Framing where
  | raw
  | chunked
deriving Repr, DecidableEq

/-- The call of an external tool. -/
structure Invocation where
  tool : String
  args : List String
deriving Repr, DecidableEq

/-- What a plugin is able to do. -/
structure Descriptor where
  name : String
  kind : PluginKind
  media : MediaType
  version : String := "0.0.0"
  description : String := ""
  formats : List FormatTag := []
  tools : List String := []
  limitations : List String := []
  options : List String := []
  flags : UInt32 := 0
  framing : Framing := .raw
deriving Repr, DecidableEq

namespace Descriptor

/-- The plugin writes a bare stream without a container. -/
def rawBitstreamFlag : UInt32 := 1

/-- The plugin leaves its work to an external tool. -/
def externalFlag : UInt32 := 2

/-- The name under which a plugin is known: trimmed, in lower case. -/
def normalName (name : String) : String :=
  Text.lower (Text.trim name)

/-- Starts a draft. -/
def draft (name : String) (kind : PluginKind) (media : MediaType) : Descriptor :=
  { name := normalName name, kind, media }

/-- Adds a format, unless the draft has it. -/
def addFormat (d : Descriptor) (text : String) : Descriptor :=
  let tag := FormatTag.ofText text
  if tag ∈ d.formats then d else { d with formats := d.formats ++ [tag] }

/-- Adds flag bits. -/
def addFlags (d : Descriptor) (bits : UInt32) : Descriptor :=
  { d with flags := d.flags ||| bits }

/-- Adds a tool the plugin needs; the plugin is then an external one. -/
def addTool (d : Descriptor) (tool : String) : Descriptor :=
  { d with tools := d.tools ++ [tool] }.addFlags externalFlag

/-- Adds a known limitation. -/
def addLimitation (d : Descriptor) (note : String) : Descriptor :=
  { d with limitations := d.limitations ++ [note] }

/-- Adds an option the plugin takes. -/
def addOption (d : Descriptor) (name : String) : Descriptor :=
  { d with options := d.options ++ [name] }

/-- Checks a finished draft. -/
def check (d : Descriptor) : Except Error Descriptor :=
  if d.name.toList = [] then .error (.configuration .emptyPluginName)
  else if d.formats.any fun f => f.text.toList.isEmpty then
    .error (.configuration (.blankFormat d.name))
  else if d.formats = [] then .error (.configuration (.noFormats d.name))
  else .ok d

/-- Whether all of `bits` are set. -/
def hasFlags (d : Descriptor) (bits : UInt32) : Bool :=
  d.flags &&& bits == bits

/-- The plugin writes a bare stream. -/
def isRawBitstream (d : Descriptor) : Bool :=
  d.hasFlags rawBitstreamFlag

/-- The plugin works through an external tool. -/
def isExternal (d : Descriptor) : Bool :=
  d.hasFlags externalFlag

/-- Whether a format is among the declared ones. -/
def supports (d : Descriptor) (format : FormatTag) : Bool :=
  d.formats.contains format

/-- The format declared first. -/
def preferred? (d : Descriptor) : Option FormatTag :=
  d.formats.head?

/-- Whether the plugin itself takes an option. -/
def accepts (d : Descriptor) (option : String) : Bool :=
  d.options.contains option

/-- The formats as one text. -/
def formatsText (d : Descriptor) : String :=
  ", ".intercalate (d.formats.map FormatTag.text)

/-- The plugin on one line. -/
def summary (d : Descriptor) : String :=
  let name := Text.padRight 10 d.name
  let media := Text.padRight 4 d.media.label
  let kind := Text.padRight 6 d.kind.label
  s!"{name} {media} {kind} [{d.formatsText}] {d.description}"

/-- Numbers the limitations from `n` on. -/
def limitationLines (n : Nat) : List String → List String
  | [] => []
  | note :: rest => s!"  限制 #{n}: {note}" :: limitationLines (n + 1) rest

/-- The plugin in full; what it does not have is left out. -/
def describe (d : Descriptor) : List String :=
  let features :=
    (if d.isRawBitstream then ["裸码流"] else []) ++ (if d.isExternal then ["外部工具"] else [])
  let listed (label separator : String) (items : List String) : List String :=
    if items.isEmpty then [] else [label ++ separator.intercalate items]
  [s!"{d.name} ({d.media.label} {d.kind.label}) v{d.version}",
    s!"  描述    : {d.description}",
    s!"  格式    : {d.formatsText}"] ++
    listed "  特性    : " " " features ++
    listed "  依赖工具: " ", " d.tools ++
    listed "  选项    : " ", " d.options ++
    limitationLines 1 d.limitations

end Descriptor

end Transcode
