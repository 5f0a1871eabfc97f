import FetchQuery.Translate
import FetchQuery.Request.Json

/-!
# What is printed

For a document that is a request the query is printed, and on demand also the request as
JSON. For any other document nothing is printed but an error. What the log says of the translation
stands among the errors, before the error if there is one.
-/

namespace FetchQuery

/-- How documents are translated and printed. -/
structure Settings where
  options : Sql.Options := {}
  /-- Whether the request is printed as JSON, too. -/
  json : Bool := false
  log : Log := {}

namespace Settings

/-- What is printed for a request. -/
def printed (settings : Settings) (request : Request) : Text :=
  Sql.render settings.options request ++ ['\n'] ++
    if settings.json then '\n' :: (request.toJson.write .indented ++ ['\n']) else []

/-- What is printed for a document. -/
def print (settings : Settings) (document : Text) : Except Fault Text := do
  let request ← Request.ofDocument document
  return settings.printed request

/-- What the log says of the translation of a document. -/
def logged (settings : Settings) (document : Text) : Text :=
  settings.log.write (translationEvents settings.options document)

end Settings

/-- The line that tells of an error. -/
def errorLine (message : Text) : Text :=
  "Error: " ++ message ++ ['\n']

/-- What a program leaves behind: its exit code and what it wrote. The log is written among the
errors. -/
structure Report where
  exitCode : UInt8
  output : Text
  errors : Text
  deriving DecidableEq, Repr

namespace Report

/-- The report on a document. -/
def ofDocument (settings : Settings) (document : Text) : Report :=
  match settings.print document with
  | .ok output => ⟨0, output, settings.logged document⟩
  | .error fault => ⟨1, [], settings.logged document ++ errorLine fault.message⟩

end Report

end FetchQuery
