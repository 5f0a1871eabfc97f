import FetchQuery.Text.Numeral

/-!
# What is wrong with a document

Each fault is a cause. Its wording is given once, by the `message` of its type. Faults
of the markup itself name the construct that is not finished or not matched; faults of a
tag name the attribute; faults of the tree name the element.
-/

namespace FetchQuery

namespace Xml

/-- Why the markup of a document cannot be read on. -/
inductive MarkupFault where
  | tagNotClosed
  | commentNotClosed
  | characterDataNotClosed
  | doctypeNotClosed
  | doctypeWithoutName
  | instructionNotClosed
  | referenceNotClosed
  | unknownMarkup
  /-- A closing tag that is not the one of the innermost open tag. -/
  | wrongClosingTag (expected found : Text)
  /-- A closing tag where no tag is open. -/
  | strayClosingTag (found : Text)
  deriving DecidableEq, Repr

namespace MarkupFault

/-- A construct and the mark that should have ended it. -/
private def unfinished (construct mark : Text) : Text :=
  construct ++ " not closed: `" ++ mark ++ "` not found before end of input"

/-- The wording of a fault of the markup. -/
def message : MarkupFault → Text
  | tagNotClosed => "syntax error: " ++ unfinished "tag" ">"
  | commentNotClosed => "syntax error: " ++ unfinished "comment" "-->"
  | characterDataNotClosed => "syntax error: " ++ unfinished "CDATA" "]]>"
  | doctypeNotClosed => "syntax error: " ++ unfinished "DOCTYPE" ">"
  | doctypeWithoutName =>
      "ill-formed document: `<!DOCTYPE>` declaration does not contain a name of a document type"
  | instructionNotClosed =>
      "syntax error: " ++ unfinished "processing instruction or xml declaration" "?>"
  | referenceNotClosed =>
      "ill-formed document: " ++ unfinished "entity or character reference" ";"
  | unknownMarkup => "syntax error: unknown or missed symbol in markup"
  | wrongClosingTag expected found =>
      "ill-formed document: expected `</" ++ expected ++ ">`, but `</" ++ found ++ ">` was found"
  | strayClosingTag found =>
      "ill-formed document: close tag `</" ++ found ++ ">` does not match any open tag"

end MarkupFault

/-- Why an attribute of a tag cannot be read. Positions count the bytes of the tag's
content, from the character after `<`. -/
inductive AttributeFault where
  /-- A key that is not followed by an equals sign. -/
  | noEquals (position : Nat)
  /-- An equals sign with nothing behind it. -/
  | noValue (position : Nat)
  /-- A value that does not start with a quote. -/
  | noQuote (position : Nat)
  /-- A value whose quote is never repeated. -/
  | unclosedQuote (position : Nat) (quote : Char)
  /-- A key that an earlier attribute of the tag has. -/
  | duplicate (position previous : Nat)
  deriving DecidableEq, Repr

namespace AttributeFault

/-- The position that opens the wording of a fault. -/
def position : AttributeFault → Nat
  | noEquals position => position
  | noValue position => position
  | noQuote position => position
  | unclosedQuote position _ => position
  | duplicate position _ => position

/-- The wording of a fault without its position. -/
def complaint : AttributeFault → Text
  | noEquals _ => "attribute key must be directly followed by `=` or space"
  | noValue _ => "`=` must be followed by an attribute value"
  | noQuote _ => "attribute value must be enclosed in `\"` or `'`"
  | unclosedQuote _ quote => "missing closing quote `" ++ [quote] ++ "` in attribute value"
  | duplicate _ previous =>
      "duplicated attribute, previous declaration at position " ++ Text.decimal previous

/-- The wording of a fault of an attribute. -/
def message (fault : AttributeFault) : Text :=
  "position " ++ Text.decimal fault.position ++ ": " ++ fault.complaint

end AttributeFault

/-- Why a value has no decoding. Ranges count the bytes of the value as written. -/
inductive ReferenceFault where
  /-- An ampersand without a semicolon before the next ampersand. -/
  | unfinished (start stop : Nat)
  /-- A name that stands for no character. -/
  | unknownName (start stop : Nat) (name : Text)
  /-- A character number with a sign. -/
  | signedNumber
  /-- A character number that is no numeral of 32 bits. -/
  | badNumber (fault : NumeralFault)
  /-- The number zero, which no document may refer to. -/
  | nullCharacter
  /-- A number that is no Unicode scalar value. -/
  | notScalar (number : Nat)
  deriving DecidableEq, Repr

namespace ReferenceFault

/-- The wording of a fault of a reference. -/
def message : ReferenceFault → Text
  | unfinished start stop =>
      "Error while escaping character at range " ++ Text.decimal start ++ ".." ++
        Text.decimal stop ++ ": Cannot find ';' after '&'"
  | unknownName start stop name =>
      "at " ++ Text.decimal start ++ ".." ++ Text.decimal stop ++ ": unrecognized entity `" ++
        name ++ "`"
  | signedNumber => "invalid character reference: unexpected number sign"
  | badNumber fault => "invalid character reference: " ++ fault.message
  | nullCharacter => "invalid character reference: 0x0 character is not permitted in XML"
  | notScalar number =>
      "invalid character reference: `" ++ Text.decimal number ++ "` is not a valid codepoint"

end ReferenceFault

/-- Why a tag does not describe an element. -/
inductive TagFault where
  | badAttribute (fault : AttributeFault)
  | badValue (key : Text) (fault : ReferenceFault)
  deriving DecidableEq, Repr

namespace TagFault

/-- The wording of a fault of the tag of the named element. -/
def message (element : Text) : TagFault → Text
  | badAttribute fault => "bad attribute on <" ++ element ++ ">: " ++ fault.message
  | badValue key fault =>
      "bad value for '" ++ key ++ "' on <" ++ element ++ ">: " ++ fault.message

end TagFault

/-- Why a document has no tree. -/
inductive DocumentFault where
  /-- The piece that starts at a byte offset is no markup. -/
  | markup (offset : Nat) (fault : MarkupFault)
  /-- The tag of an element cannot be read. -/
  | tag (element : Text) (fault : TagFault)
  /-- A closing tag that finds no element to close. -/
  | unexpectedClosingTag
  | secondRoot (element : Text)
  | neverClosed (element : Text)
  | noRoot
  deriving DecidableEq, Repr

namespace DocumentFault

/-- The wording of a fault of a document. -/
def message : DocumentFault → Text
  | markup offset fault => "XML error at byte " ++ Text.decimal offset ++ ": " ++ fault.message
  | tag element fault => fault.message element
  | unexpectedClosingTag => "unexpected closing tag"
  | secondRoot element => "second root element <" ++ element ++ ">"
  | neverClosed element => "element <" ++ element ++ "> is never closed"
  | noRoot => "document has no root element"

end DocumentFault

end Xml

end FetchQuery
