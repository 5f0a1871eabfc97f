import FetchQuery.Text.Blank
import FetchQuery.Text.AsciiCase
import FetchQuery.Text.Search
import FetchQuery.Xml.Document

/-!
# The shell, line by line

The shell collects lines in a buffer until they close a fetch document, and has the
buffer translated then. A line whose first visible character is a dot is a command and
never becomes part of a document. Blank lines before a document are dropped.

## Implementation notes

A document counts as closed when the closing tag of its root occurs anywhere in the
buffer, in any letter case, or when the buffer can be read as a document. The second
finds roots without children, the first hands over documents that are broken elsewhere.
-/

namespace FetchQuery

namespace Shell

open Text

/-- The tag that closes a fetch document. -/
def closingTag : Text := "</fetch>"

/-- A buffer that has a whole document in it, or the end of one. -/
def closes (buffer : Text) : Bool :=
  contains closingTag (toLower buffer) || (Xml.Element.ofDocument buffer).isOk

/-- What a person can tell the shell to do. -/
inductive Command where
  | help
  | go
  | clear
  | leave
  deriving DecidableEq, Repr

/-- The commands by their names. -/
def commands : List (Text × Command) :=
  [(".help", .help), (".go", .go), (".clear", .clear), (".exit", .leave), (".quit", .leave)]

/-- What the shell does about a line. -/
inductive Reaction where
  /-- A blank line before a document is dropped. -/
  | ignore
  /-- The line is kept, and the document goes on. -/
  | keep
  /-- A document is translated, and the buffer emptied. -/
  | translate (document : Text)
  /-- The buffer is emptied. -/
  | discard (buffer : Text)
  | explain
  | leave
  | reject (command : Text)
  deriving DecidableEq, Repr

/-- The reaction to a command. -/
def obey (buffer : Text) : Command → Reaction
  | .help => .explain
  | .go => .translate buffer
  | .clear => .discard buffer
  | .leave => .leave

/-- The reaction to a line, given the lines that are in the buffer. -/
def react (buffer line : Text) : Reaction :=
  let word := trim line
  if word.head? = some '.' then
    match commands.lookup word with
    | some command => obey buffer command
    | none => .reject word
  else if word.isEmpty && buffer.isEmpty then .ignore
  else if closes (buffer ++ line) then .translate (buffer ++ line)
  else .keep

/-- The buffer after a line and the reaction to it. -/
def bufferAfter (buffer line : Text) : Reaction → Text
  | .keep => buffer ++ line
  | .translate _ => []
  | .discard _ => []
  | _ => buffer

end Shell

end FetchQuery
