/-!
# Command line arguments

Options are read from left to right, and the first mistake or request for the version decides. An
option takes its value from the same word (`-k value`, `-kvalue`, `-k=value`, `--key=value`) or from
the next one, which then may not look like an option. Short switches can be put together in one
word. There are no other arguments.
-/

set_option autoImplicit false

namespace Transcode.Cli

/-- What is asked for on the command line. -/
structure Arguments where
  importer? : Option String := none
  exporter? : Option String := none
  input? : Option String := none
  output? : Option String := none
  rawAudio? : Option String := none
  options : List String := []
  profile? : Option String := none
  keepPartial : Bool := false
  list : Bool := false
  describe? : Option String := none
  logDirectory : String := "logs"
  verbosity : Nat := 0
deriving Repr, DecidableEq

/-- The options there are. -/
inductive Key where
  | importer
  | exporter
  | input
  | output
  | rawAudio
  | option
  | profile
  | keepPartial
  | list
  | describe
  | logDirectory
  | verbose
  | version
  | help
deriving Repr, DecidableEq

namespace Key

/-- The option with a long name. -/
def ofLong? : String → Option Key
  | "import" => some importer
  | "export" => some exporter
  | "in" => some input
  | "out" => some output
  | "raw-audio" => some rawAudio
  | "option" => some option
  | "profile" => some profile
  | "keep-partial" => some keepPartial
  | "list" => some list
  | "describe" => some describe
  | "log-dir" => some logDirectory
  | "verbose" => some verbose
  | "version" => some version
  | "help" => some help
  | _ => none

/-- The option with a short name. -/
def ofShort? (c : Char) : Option Key :=
  if c = 'x' then some importer
  else if c = 'y' then some exporter
  else if c = 'i' then some input
  else if c = 'o' then some output
  else if c = 'm' then some rawAudio
  else if c = 'O' then some option
  else if c = 'v' then some verbose
  else if c = 'V' then some version
  else if c = 'h' then some help
  else none

/-- Whether the option has a value. -/
def takesValue : Key → Bool
  | keepPartial | list | verbose | version | help => false
  | _ => true

/-- Whether the value is a path, which may not be empty. -/
def isPath : Key → Bool
  | input | output | rawAudio | profile | logDirectory => true
  | _ => false

/-- Whether the option may be given more than once. -/
def isRepeatable : Key → Bool
  | option | verbose => true
  | _ => false

end Key

/-- A part of a word. -/
inductive Item where
  | switch (key : Key)
  | value (key : Key) (text : String)
  /-- An option whose value is the next word. -/
  | awaits (key : Key)
  | mistake

/-- The parts of a word of short options. -/
def shortItems : List Char → List Item
  | [] => []
  | c :: rest =>
      match Key.ofShort? c with
      | none => [.mistake]
      | some key =>
          if key.takesValue then
            match rest with
            | [] => [.awaits key]
            | '=' :: text => [.value key (String.ofList text)]
            | text => [.value key (String.ofList text)]
          else .switch key :: shortItems rest

/-- The part a long option is. -/
def longItem (cs : List Char) : Item :=
  let name := cs.takeWhile (· ≠ '=')
  match Key.ofLong? (String.ofList name), cs.dropWhile (· ≠ '=') with
  | none, _ => .mistake
  | some key, [] => if key.takesValue then .awaits key else .switch key
  | some key, _ :: text => if key.takesValue then .value key (String.ofList text) else .mistake

/-- The parts of a word. -/
def items (word : String) : List Item :=
  match word.toList with
  | '-' :: '-' :: cs => [longItem cs]
  | '-' :: c :: cs => shortItems (c :: cs)
  | _ => [.mistake]

/-- Whether a word looks like an option. -/
def isHyphenated (word : String) : Bool :=
  match word.toList with
  | '-' :: _ :: _ => true
  | _ => false

/-- What the command line amounts to. -/
inductive Request where
  | run (arguments : Arguments)
  | version
  | help
  | mistaken
deriving Repr, DecidableEq

/-- The arguments so far, and which options were given. -/
structure Reading where
  arguments : Arguments := {}
  given : List Key := []

namespace Reading

/-- Notes an option as given, unless it was given before and may be given once. -/
def note (r : Reading) (key : Key) : Option Reading :=
  if key ∈ r.given ∧ !key.isRepeatable then none else some { r with given := key :: r.given }

/-- Sets a switch. -/
def setSwitch (a : Arguments) : Key → Arguments
  | .keepPartial => { a with keepPartial := true }
  | .list => { a with list := true }
  | .verbose => { a with verbosity := a.verbosity + 1 }
  | _ => a

/-- Sets an option with a value. -/
def setValue (a : Arguments) (text : String) : Key → Arguments
  | .importer => { a with importer? := some text }
  | .exporter => { a with exporter? := some text }
  | .input => { a with input? := some text }
  | .output => { a with output? := some text }
  | .rawAudio => { a with rawAudio? := some text }
  | .option => { a with options := a.options ++ [text] }
  | .profile => { a with profile? := some text }
  | .describe => { a with describe? := some text }
  | .logDirectory => { a with logDirectory := text }
  | _ => a

/-- Takes an option with its value. -/
def take (r : Reading) (key : Key) (text : String) : Option Reading :=
  if key.isPath ∧ text.toList = [] then none
  else (r.note key).map fun r => { r with arguments := setValue r.arguments text key }

end Reading

/-- Where a word leaves the reading: going on, waiting for the value of an option, or decided. -/
inductive Progressed where
  | going (r : Reading)
  | waiting (r : Reading) (key : Key)
  | decided (request : Request)

/-- Takes the parts of a word. -/
def takeItems (r : Reading) : List Item → Progressed
  | [] => .going r
  | .mistake :: _ => .decided .mistaken
  | .awaits key :: _ => .waiting r key
  | .value key text :: rest =>
      match r.take key text with
      | none => .decided .mistaken
      | some r => takeItems r rest
  | .switch key :: rest =>
      if key = .version then .decided .version
      else if key = .help then .decided .help
      else
        match r.note key with
        | none => .decided .mistaken
        | some r =>
            takeItems { r with arguments := Reading.setSwitch r.arguments key } rest

/-- Takes the words of a command line. Nothing may follow the word `--`. -/
def takeWords (r : Reading) : List String → Request
  | [] => .run r.arguments
  | word :: rest =>
      if word = "--" then (if rest = [] then .run r.arguments else .mistaken)
      else
        match takeItems r (items word) with
        | .decided request => request
        | .going r => takeWords r rest
        | .waiting r key =>
            match rest with
            | [] => .mistaken
            | text :: rest =>
                if isHyphenated text then .mistaken
                else
                  match r.take key text with
                  | none => .mistaken
                  | some r => takeWords r rest

/-- Reads a command line. -/
def Request.ofWords (words : List String) : Request :=
  takeWords {} words

end Transcode.Cli
