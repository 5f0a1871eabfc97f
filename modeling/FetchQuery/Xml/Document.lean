import FetchQuery.Xml.Tag

/-!
# Documents

A document is read piece by piece. Closing tags are checked against the names of the
tags that are still open, and the elements under construction are kept beside these
names, innermost first. A finished element goes to the element around it, or becomes the
root if there is none. The first fault ends the reading; a fault of the pieces comes
after all faults of the pieces before it.

## Implementation notes

One byte order mark at the start is no part of the document, and offsets do not count it.
-/

namespace FetchQuery

namespace Xml

open Text

/-- A document without its byte order mark. -/
def withoutByteOrderMark : Text → Text
  | '\uFEFF' :: rest => rest
  | text => text

/-- The byte offset of a place in a document, given by the text from there on. -/
def offset (document place : Text) : Nat :=
  byteLength document - byteLength place

/-- The name in a closing tag. Blanks after a name do not belong to it. -/
def closingName (content : Text) : Text :=
  if content.all isBlank then content else dropEndWhile isBlank content

/-- The names that stay open after a closing tag, innermost first. -/
def closeName (names : List Text) (name : Text) : Except MarkupFault (List Text) :=
  match names with
  | [] => .error (.strayClosingTag name)
  | expected :: outer =>
      if expected = name then .ok outer else .error (.wrongClosingTag expected name)

/-- The part of a tree that has been read. -/
structure Growth where
  /-- The names of the tags that are not closed yet, innermost first. -/
  names : List Text
  /-- The elements under construction, innermost first. -/
  unfinished : List Element
  root? : Option Element
  deriving DecidableEq, Repr

namespace Growth

/-- Nothing has been read. -/
def start : Growth :=
  ⟨[], [], none⟩

/-- Hands a finished element to the element around it, or makes it the root. -/
def attach (growth : Growth) (element : Element) : Except DocumentFault Growth :=
  match growth.unfinished with
  | parent :: outer =>
      .ok { growth with
        unfinished := { parent with children := parent.children ++ [element] } :: outer }
  | [] =>
      match growth.root? with
      | some _ => .error (.secondRoot element.name)
      | none => .ok { growth with root? := some element }

/-- The element of a tag, or what is wrong with the tag. -/
def elementOfTag (content : Text) : Except DocumentFault Element :=
  (Element.ofTag content).mapError (.tag (tagName content))

/-- Finishes the innermost element. -/
def finishElement (growth : Growth) : Except DocumentFault Growth :=
  match growth.unfinished with
  | [] => .error .unexpectedClosingTag
  | element :: outer => attach { growth with unfinished := outer } element

/-- Reads one piece of a document. Only tags make the tree grow. -/
def read (document : Text) (growth : Growth) (piece : Located) : Except DocumentFault Growth :=
  match piece.event with
  | .openTag content => do
      let element ← elementOfTag content
      return { growth with
        names := tagName content :: growth.names
        unfinished := element :: growth.unfinished }
  | .emptyTag content => do
      let element ← elementOfTag content
      growth.attach element
  | .closeTag content => do
      let names ← (closeName growth.names (closingName content)).mapError fun fault =>
        .markup (offset document piece.place) fault
      finishElement { growth with names := names }
  | _ => .ok growth

/-- The tree of a document that has been read to its end. -/
def finish (growth : Growth) : Except DocumentFault Element :=
  match growth.unfinished with
  | element :: _ => .error (.neverClosed element.name)
  | [] =>
      match growth.root? with
      | some root => .ok root
      | none => .error .noRoot

end Growth

/-- The tree of a document that is written without a byte order mark. -/
def treeOf (document : Text) : Except DocumentFault Element := do
  let scanned := scan document
  let growth ← scanned.pieces.foldlM (Growth.read document) Growth.start
  match scanned.fault? with
  | some (place, fault) => .error (.markup (offset document place) fault)
  | none => growth.finish

/-- Reads a document. -/
def Element.ofDocument (input : Text) : Except DocumentFault Element :=
  treeOf (withoutByteOrderMark input)

end Xml

end FetchQuery
