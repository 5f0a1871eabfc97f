import FetchQuery.CommandLine.Run
import FetchQuery.Shell.Session

/-!
# The program

Translates a fetch document that is given as an argument, in a file or on the standard
input, and prints the query. On a terminal, with no document given, it is a shell.

This is the only module that reads and writes anything. It finds out what there is to
read, asks the library for a report, and writes the report.
-/

namespace FetchQuery

namespace Program

open CommandLine

/-- The answer to a request for help. -/
def usage : Text :=
  Shell.unlines [
    "Translates fetch documents into SQL queries",
    "",
    "Usage: fetchsql [OPTIONS] [FILE]",
    "",
    "  -e, --execute <DOCUMENT>     Translate this document",
    "      --json                   Also print the request as JSON",
    "      --line-ending <ENDING>   Line ending of the query: native, lf or crlf",
    "      --indent <SPACES>        Spaces in front of every item",
    "  -v, --verbose                Be more verbose",
    "  -h, --help                   Print help",
    "  -V, --version                Print version"]

/-- The answer to a request for the version. -/
def version : Text :=
  Shell.unlines ["fetchsql 0.1.0"]

/-- What a person reads at the start of the shell. -/
def banner : Text :=
  Shell.unlines [
    "fetchsql interactive shell",
    "Paste a fetch document, it is translated once it is complete",
    "Type '.help' for help, '.exit' to quit",
    ""]

/-- The wording of a fault of the arguments. -/
def complaint : ArgumentFault → Text
  | .helpRequested => usage
  | .versionRequested => version
  | .unknownArgument => "error: unexpected argument found"
  | .invalidValue => "error: a value is required or not possible"
  | .invalidNumber => "error: invalid number"
  | .unneededValue => "error: unexpected value found"
  | .conflict => "error: arguments cannot be used together"

/-- Writes a text to a stream at once. -/
def write (stream : IO.FS.Stream) (text : Text) : IO Unit := do
  stream.putStr (String.ofList text)
  stream.flush

/-- Reads a stream to its end, given what has been read of it. -/
partial def readAll (stream : IO.FS.Stream) (earlier : ByteArray) : IO Bytes := do
  let chunk ← stream.read 65536
  if chunk.isEmpty then return earlier.toList else readAll stream (earlier ++ chunk)

/-- Reads a line with its line feed, given what has been read of it. The last line may
have no line feed. -/
partial def readLine (stream : IO.FS.Stream) (earlier : ByteArray) : IO Bytes := do
  let byte ← stream.read 1
  let line := earlier ++ byte
  if byte.isEmpty || byte.toList = [Bytes.lineFeed] then return line.toList
  else readLine stream line

/-- Reads a file. -/
def readFile (path : Text) : IO (Except ReadFault Bytes) := do
  try
    let contents ← IO.FS.readBinFile (String.ofList path)
    return .ok contents.toList
  catch error =>
    match error with
    | .noFileOrDirectory .. => return .error .notFound
    | .inappropriateType _ 21 _ => return .error .isDirectory
    | .inappropriateType .. => return .error (.refused "Not a directory (os error 20)")
    | error => return .error (.refused (toString error))

/-- Reads what the arguments ask for, and nothing else. -/
def readInputs (arguments : Arguments) : IO Inputs := do
  match arguments.source with
  | .inline _ => return { standardInput := [], file := fun _ => .error .notFound }
  | .file path =>
      let contents ← readFile path
      return { standardInput := [], file := fun _ => contents }
  | .standardInput =>
      let contents ← readAll (← IO.getStdin) .empty
      return { standardInput := contents, file := fun _ => .error .notFound }

/-- Talks to a person, line by line. -/
partial def converse (settings : Settings) (buffer : Text) : IO UInt32 := do
  let output ← IO.getStdout
  write output (Shell.prompt buffer)
  let bytes ← readLine (← IO.getStdin) .empty
  if bytes.isEmpty then return 0
  match bytes.text? with
  | none =>
      write (← IO.getStderr) (Shell.Ending.errors .undecodable)
      return 1
  | some line =>
      let reaction := Shell.react buffer line
      write output (Shell.said settings reaction)
      write (← IO.getStderr) (Shell.complained settings reaction)
      if reaction = .leave then return 0
      converse settings (Shell.bufferAfter buffer line reaction)

/-- Writes a report and gives its exit code. -/
def deliver (report : Report) : IO UInt32 := do
  write (← IO.getStdout) report.output
  write (← IO.getStderr) report.errors
  return report.exitCode.toUInt32

/-- Runs the program with the words of a command line. -/
def run (words : List Text) : IO UInt32 := do
  match Arguments.ofWords words with
  | .error .helpRequested =>
      write (← IO.getStdout) usage
      return 0
  | .error .versionRequested =>
      write (← IO.getStdout) version
      return 0
  | .error fault =>
      write (← IO.getStderr) (complaint fault ++ ['\n'])
      return 2
  | .ok arguments =>
      if arguments.source = .standardInput && (← (← IO.getStdin).isTty) then
        write (← IO.getStdout) banner
        converse (arguments.settings Log.Event.line) []
      else
        deliver (report arguments (← readInputs arguments))

end Program

end FetchQuery

/-- The entry point. -/
def main (words : List String) : IO UInt32 :=
  FetchQuery.Program.run (words.map String.toList)
