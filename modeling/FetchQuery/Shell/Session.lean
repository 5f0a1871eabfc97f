import FetchQuery.Text.Encoding
import FetchQuery.Report
import FetchQuery.Shell.Basic

/-!
# Sessions of the shell

A session is the steps from the first prompt to the end of the input, to a command that
leaves the shell, or to a line that is not UTF-8. What it prints is the prompt of each
step, followed by what the shell says about the line; the lines themselves are not
repeated. What is said about a document ends in an empty line, whether the document is a
request or not, and a document that is none does not end the session.
-/

namespace FetchQuery

namespace Shell

/-- A line that was read at a prompt, and the reaction to it. -/
structure Step where
  /-- What was in the buffer at the prompt. -/
  buffer : Text
  line : Text
  reaction : Reaction
  deriving DecidableEq, Repr

/-- How a session ends. -/
inductive Ending where
  | endOfInput
  | left
  | undecodable
  deriving DecidableEq, Repr

/-- A session, from a prompt to its end. -/
structure Session where
  steps : List Step
  /-- What is in the buffer at the end. -/
  buffer : Text
  ending : Ending
  deriving DecidableEq, Repr

namespace Session

/-- The session with a first step and a session after it. -/
def after (step : Step) (later : Session) : Session :=
  { later with steps := step :: later.steps }

/-- The session on some lines, with some text in the buffer already. -/
def ofLines (buffer : Text) : List Bytes → Session
  | [] => ⟨[], buffer, .endOfInput⟩
  | bytes :: rest =>
      match bytes.text? with
      | none => ⟨[], buffer, .undecodable⟩
      | some line =>
          let reaction := react buffer line
          let buffer' := bufferAfter buffer line reaction
          if reaction = .leave then ⟨[⟨buffer, line, reaction⟩], buffer', .left⟩
          else after ⟨buffer, line, reaction⟩ (ofLines buffer' rest)

/-- The session on an input. -/
def ofInput (input : Bytes) : Session :=
  ofLines [] input.lines

end Session

/-- The prompt, which tells whether a document has been begun. -/
def prompt (buffer : Text) : Text :=
  if buffer.isEmpty then "fetchsql> " else "     ...> "

/-- Some lines as one text. -/
def unlines (lines : List Text) : Text :=
  lines.flatMap fun line => line ++ ['\n']

/-- The answer to a request for help. -/
def helpText : Text :=
  unlines [
    "Special Commands:",
    "  .help              Show this help message",
    "  .go                Translate the buffered text now (e.g. after a typo left it open)",
    "  .clear             Discard the buffered text",
    "  .exit, .quit       Exit the shell",
    "",
    "Example:",
    "  <fetch top='10'>",
    "    <entity name='account'>",
    "      <attribute name='name' />",
    "      <filter>",
    "        <condition attribute='statecode' operator='eq' value='0' />",
    "      </filter>",
    "    </entity>",
    "  </fetch>",
    "",
    "Notes:",
    "  - Only the root entity is rendered; link-entity and order are parsed but ignored",
    "  - Every condition renders as equality, whatever its operator",
    ""]

/-- What the shell prints about a line. -/
def said (settings : Settings) : Reaction → Text
  | .ignore => []
  | .keep => []
  | .translate document => (Report.ofDocument settings document).output ++ ['\n']
  | .discard _ => []
  | .explain => helpText
  | .leave => unlines ["Goodbye!"]
  | .reject command => unlines ["Unknown command: " ++ command, "Type '.help' for help"]

/-- The errors that the shell prints about a line. -/
def complained (settings : Settings) : Reaction → Text
  | .translate document => (Report.ofDocument settings document).errors
  | _ => []

namespace Step

/-- What is printed in a step, its prompt included. -/
def output (settings : Settings) (step : Step) : Text :=
  prompt step.buffer ++ said settings step.reaction

/-- The errors that are printed in a step. -/
def errors (settings : Settings) (step : Step) : Text :=
  complained settings step.reaction

end Step

namespace Ending

/-- What is printed at the end. There is a last prompt unless the shell was left. -/
def output (buffer : Text) : Ending → Text
  | left => []
  | _ => prompt buffer

/-- The error that is printed at the end. -/
def errors : Ending → Text
  | undecodable => errorLine "stream did not contain valid UTF-8"
  | _ => []

/-- The exit code of a session. -/
def exitCode : Ending → UInt8
  | undecodable => 1
  | _ => 0

end Ending

namespace Session

/-- The report on a session. -/
def report (settings : Settings) (session : Session) : Report where
  exitCode := session.ending.exitCode
  output := session.steps.flatMap (Step.output settings) ++ session.ending.output session.buffer
  errors := session.steps.flatMap (Step.errors settings) ++ session.ending.errors

end Session

/-- The report on the shell run on an input. -/
def run (settings : Settings) (input : Bytes) : Report :=
  (Session.ofInput input).report settings

end Shell

end FetchQuery
