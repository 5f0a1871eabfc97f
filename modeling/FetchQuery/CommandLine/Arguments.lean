import FetchQuery.Text.Numeral
import FetchQuery.Sql.Render

/-!
# Arguments

The words of a command line give options and at most one file. An option is named by a
long name after two hyphens or by one letter after one hyphen; letters may be combined.
The value of an option is attached to it or is the next word. A lone `--` ends the
options, a lone `-` is an ordinary word.

## Implementation notes

Words are judged from left to right. A word that is a file, or the value of the option
before it, is held back (`Pending`) and judged when the next option or file comes, or at
the end. An attached value is judged at once. So an unknown option after a bad value is
the fault that counts, and a bad value before a known option is.
-/

namespace FetchQuery

namespace CommandLine

open Text

/-- The ways to end a line that can be asked for. -/
inductive LineEnding where
  | native
  | lineFeed
  | returnLineFeed
  deriving DecidableEq, Repr

namespace LineEnding

/-- The words for the ways to end a line. -/
def words : List (Text × LineEnding) :=
  [("native", native), ("lf", lineFeed), ("crlf", returnLineFeed)]

/-- The line break that is asked for. -/
def lineBreak : LineEnding → Sql.LineBreak
  | native => .native
  | lineFeed => .lineFeed
  | returnLineFeed => .returnLineFeed

end LineEnding

/-- What a command line asks for. -/
structure Arguments where
  file : Option Text := none
  execute : Option Text := none
  json : Bool := false
  lineEnding : LineEnding := .native
  indent : Nat := 4
  /-- How many levels beyond warnings are logged. -/
  verbosity : Nat := 0
  deriving DecidableEq, Repr

namespace Arguments

/-- The layout that the arguments ask for. -/
def options (arguments : Arguments) : Sql.Options where
  lineBreak := arguments.lineEnding.lineBreak
  indent := arguments.indent

end Arguments

/-- Why a command line asks for no run. -/
inductive ArgumentFault where
  | helpRequested
  | versionRequested
  /-- An option that is not known, or a second file. -/
  | unknownArgument
  /-- A value that is missing, or that is none of the possible ones. -/
  | invalidValue
  /-- A value that is no number within its limit. -/
  | invalidNumber
  /-- A value for an option that takes none. -/
  | unneededValue
  /-- Arguments that cannot be given together. -/
  | conflict
  deriving DecidableEq, Repr

/-- What takes a value. -/
inductive Slot where
  | file
  | execute
  | lineEnding
  | indent
  deriving DecidableEq, Repr

/-- An option without a value. -/
inductive Flag where
  | json
  | verbose
  | help
  | version
  deriving DecidableEq, Repr

/-- An option, with or without a value. -/
inductive Switch where
  | valued (slot : Slot)
  | flag (flag : Flag)
  deriving DecidableEq, Repr

/-- The options by their long names. -/
def longNames : List (Text × Switch) :=
  [("execute", .valued .execute), ("json", .flag .json), ("line-ending", .valued .lineEnding),
    ("indent", .valued .indent), ("verbose", .flag .verbose), ("help", .flag .help),
    ("version", .flag .version)]

/-- The options by their letters. -/
def letters : List (Char × Switch) :=
  [('e', .valued .execute), ('v', .flag .verbose), ('h', .flag .help), ('V', .flag .version)]

/-- The arguments that have been judged. -/
structure Draft where
  file : Option Text := none
  execute : Option Text := none
  json : Bool := false
  lineEnding : Option LineEnding := none
  indent : Option Nat := none
  verbosity : Nat := 0
  deriving DecidableEq, Repr

/-- The largest number of spaces that can be asked for. -/
def indentLimit : Nat :=
  0xFFFFFFFFFFFFFFFF

/-- The largest verbosity. -/
def verbosityLimit : Nat :=
  255

namespace Draft

/-- Judges the value of a slot. Only a value that has not been given before counts. -/
def accept (draft : Draft) (slot : Slot) (value : Text) : Except ArgumentFault Draft :=
  match slot with
  | .file =>
      if value.isEmpty then .error .invalidValue else .ok { draft with file := some value }
  | .execute =>
      if draft.execute.isSome then .error .conflict
      else .ok { draft with execute := some value }
  | .lineEnding =>
      if draft.lineEnding.isSome then .error .conflict
      else
        match LineEnding.words.lookup value with
        | some ending => .ok { draft with lineEnding := some ending }
        | none => .error .invalidValue
  | .indent =>
      if draft.indent.isSome then .error .conflict
      else
        match readUnsigned indentLimit value with
        | .ok indent => .ok { draft with indent := some indent }
        | .error _ => .error .invalidNumber

/-- Heeds an option without a value. -/
def raise (draft : Draft) (flag : Flag) : Except ArgumentFault Draft :=
  match flag with
  | .json => if draft.json then .error .conflict else .ok { draft with json := true }
  | .verbose => .ok { draft with verbosity := min (draft.verbosity + 1) verbosityLimit }
  | .help => .error .helpRequested
  | .version => .error .versionRequested

/-- The arguments of a draft. A file and a document to execute exclude each other. -/
def arguments (draft : Draft) : Except ArgumentFault Arguments :=
  if draft.file.isSome && draft.execute.isSome then .error .conflict
  else .ok {
    file := draft.file
    execute := draft.execute
    json := draft.json
    lineEnding := draft.lineEnding.getD .native
    indent := draft.indent.getD 4
    verbosity := draft.verbosity }

end Draft

/-- A slot whose value has not been judged, and the value if it has come. -/
structure Pending where
  slot : Slot
  value : Option Text
  deriving DecidableEq, Repr

/-- Arguments that are being read. -/
structure Reading where
  draft : Draft := {}
  pending : Option Pending := none
  deriving DecidableEq, Repr

namespace Reading

/-- Judges the value that has been held back. It has to have come. -/
def settle (reading : Reading) : Except ArgumentFault Draft :=
  match reading.pending with
  | none => .ok reading.draft
  | some ⟨_, none⟩ => .error .invalidValue
  | some ⟨slot, some value⟩ => reading.draft.accept slot value

/-- A reading in which a file has come, judged or not. -/
def hasFile (reading : Reading) : Bool :=
  reading.draft.file.isSome || reading.pending.any fun pending => pending.slot = .file

/-- Reads an option without a value. -/
def readFlag (reading : Reading) (flag : Flag) : Except ArgumentFault Reading := do
  let draft ← reading.settle
  let draft ← draft.raise flag
  return { draft }

/-- Reads an option with a value, which may be attached or still to come. -/
def readOption (reading : Reading) (slot : Slot) (attached : Option Text) :
    Except ArgumentFault Reading := do
  let draft ← reading.settle
  match attached with
  | none => return { draft, pending := some ⟨slot, none⟩ }
  | some value => do
      let draft ← draft.accept slot value
      return { draft }

/-- Reads a file. There is at most one. -/
def readFile (reading : Reading) (word : Text) : Except ArgumentFault Reading := do
  if reading.hasFile then throw .unknownArgument
  let draft ← reading.settle
  return { draft, pending := some ⟨.file, some word⟩ }

/-- Reads a word that is no option: the value of the option before it, or a file. -/
def readPlain (reading : Reading) (word : Text) : Except ArgumentFault Reading :=
  match reading.pending with
  | some ⟨slot, none⟩ => .ok { reading with pending := some ⟨slot, some word⟩ }
  | _ => reading.readFile word

/-- The value attached to a long name. -/
def attachedToName : Text → Option Text
  | '=' :: value => some value
  | _ => none

/-- Reads what follows two hyphens. -/
def readLong (reading : Reading) (text : Text) : Except ArgumentFault Reading :=
  let attached := attachedToName (text.dropWhile (· != '='))
  match longNames.lookup (text.takeWhile (· != '=')) with
  | none => .error .unknownArgument
  | some (.valued slot) => reading.readOption slot attached
  | some (.flag flag) =>
      if attached.isSome then .error .unneededValue else reading.readFlag flag

/-- The value attached to a letter, with or without an equals sign. -/
def attachedToLetter : Text → Option Text
  | [] => none
  | '=' :: value => some value
  | value => some value

/-- Reads the letters that follow one hyphen. The first one that takes a value takes all
that follows it. -/
def readLetters (reading : Reading) : Text → Except ArgumentFault Reading
  | [] => .ok reading
  | letter :: rest =>
      match letters.lookup letter with
      | none => .error .unknownArgument
      | some (.valued slot) => reading.readOption slot (attachedToLetter rest)
      | some (.flag flag) => do
          let reading ← reading.readFlag flag
          reading.readLetters rest

/-- Reads word after word. -/
def readWords (reading : Reading) : List Text → Except ArgumentFault Reading
  | [] => .ok reading
  | ['-', '-'] :: words => words.foldlM readFile reading
  | ('-' :: '-' :: text) :: words => do
      let reading ← reading.readLong text
      reading.readWords words
  | ('-' :: letter :: text) :: words => do
      let reading ← reading.readLetters (letter :: text)
      reading.readWords words
  | word :: words => do
      let reading ← reading.readPlain word
      reading.readWords words

end Reading

namespace Arguments

/-- The arguments that the words of a command line give. -/
def ofWords (words : List Text) : Except ArgumentFault Arguments := do
  let reading ← Reading.readWords {} words
  let draft ← reading.settle
  draft.arguments

end Arguments

end CommandLine

end FetchQuery
