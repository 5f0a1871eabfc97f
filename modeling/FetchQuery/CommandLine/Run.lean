import FetchQuery.Text.Encoding
import FetchQuery.Report
import FetchQuery.CommandLine.Arguments

/-!
# Running once

A run takes one document and reports on it. The document is given on the command line, in
a file, or on the standard input, in this order of precedence. A source that cannot be
read gives an error that names it.
-/

namespace FetchQuery

namespace CommandLine

/-- Where a document comes from. -/
inductive Source where
  | inline (document : Text)
  | file (path : Text)
  | standardInput
  deriving DecidableEq, Repr

namespace Source

/-- The name of a source in errors. -/
def name : Source → Text
  | inline _ => "the command line"
  | file path => path
  | standardInput => "stdin"

end Source

namespace Arguments

/-- The source that the arguments ask for. -/
def source (arguments : Arguments) : Source :=
  match arguments.execute, arguments.file with
  | some document, _ => .inline document
  | none, some path => .file path
  | none, none => .standardInput

/-- The settings that the arguments ask for, with a log in a given format. The verbosity alone
decides what is logged: the environment is taken to ask for no levels of its own. -/
def settings (arguments : Arguments) (format : Log.Format) : Settings where
  options := arguments.options
  json := arguments.json
  log := { threshold := .ofVerbosity arguments.verbosity, format }

end Arguments

/-- Why a source gives no document. -/
inductive ReadFault where
  | notUtf8
  | notFound
  | isDirectory
  /-- Any other refusal, in the words of the system. -/
  | refused (reason : Text)
  deriving DecidableEq, Repr

namespace ReadFault

/-- The wording of a fault. -/
def message : ReadFault → Text
  | notUtf8 => "stream did not contain valid UTF-8"
  | notFound => "No such file or directory (os error 2)"
  | isDirectory => "Is a directory (os error 21)"
  | refused reason => reason

end ReadFault

/-- What a run finds outside: the standard input, the contents of files, and how the log is
written there. -/
structure Inputs where
  standardInput : Bytes
  file : Text → Except ReadFault Bytes
  format : Log.Format := Log.Event.line

/-- The text of some bytes that have been read. -/
def decoded (bytes : Bytes) : Except ReadFault Text :=
  match bytes.text? with
  | some text => .ok text
  | none => .error .notUtf8

namespace Inputs

/-- The document that a source gives. -/
def document (inputs : Inputs) : Source → Except ReadFault Text
  | .inline document => .ok document
  | .file path => do
      let bytes ← inputs.file path
      decoded bytes
  | .standardInput => decoded inputs.standardInput

end Inputs

/-- The report on a source that gives no document. -/
def readFaultReport (source : Source) (fault : ReadFault) : Report :=
  ⟨1, [], errorLine ("failed to read " ++ source.name) ++ ['\n'] ++ "Caused by:" ++ ['\n'] ++
    "    " ++ fault.message ++ ['\n']⟩

/-- The report on a run with given arguments. -/
def report (arguments : Arguments) (inputs : Inputs) : Report :=
  match inputs.document arguments.source with
  | .ok document => .ofDocument (arguments.settings inputs.format) document
  | .error fault => readFaultReport arguments.source fault

/-- The report on a run with the words of a command line. -/
def run (words : List Text) (inputs : Inputs) : Except ArgumentFault Report := do
  let arguments ← Arguments.ofWords words
  return report arguments inputs

end CommandLine

end FetchQuery
