import FetchQuery.Text.Basic

/-!
# Pieces of a document

A document is a sequence of tags, texts, references and pieces of other markup. An event
is one of them. It keeps all that was written between its delimiters, so that its source
can be written down again.
-/

namespace FetchQuery

namespace Xml

/-- One piece of a document. -/
inductive Event where
  /-- Text between markup, of at least one character. -/
  | text (first : Char) (more : Text)
  /-- A tag that opens an element, with its name and attributes as written. -/
  | openTag (content : Text)
  /-- A tag that is an element without children, without its final slash. -/
  | emptyTag (content : Text)
  /-- A tag that closes an element, without its first slash. -/
  | closeTag (content : Text)
  | comment (body : Text)
  /-- Text in a section in which nothing is markup. -/
  | characterData (body : Text)
  /-- A document type declaration, from its keyword on. -/
  | doctype (content : Text)
  /-- A processing instruction, the declaration of the document included. -/
  | instruction (body : Text)
  /-- A reference to a character or an entity, between tags. -/
  | reference (name : Text)
  deriving DecidableEq, Repr

namespace Event

/-- The text that writes an event. -/
def source : Event → Text
  | text first more => first :: more
  | openTag content => "<" ++ content ++ ">"
  | emptyTag content => "<" ++ content ++ "/>"
  | closeTag content => "</" ++ content ++ ">"
  | comment body => "<!--" ++ body ++ "-->"
  | characterData body => "<![CDATA[" ++ body ++ "]]>"
  | doctype content => "<!" ++ content ++ ">"
  | instruction body => "<?" ++ body ++ "?>"
  | reference name => "&" ++ name ++ ";"

/-- No piece is empty. -/
theorem source_ne_nil (event : Event) : event.source ≠ [] := by
  cases event <;> simp [source]

end Event

end Xml

end FetchQuery
