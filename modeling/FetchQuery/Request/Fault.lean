import FetchQuery.Xml.Fault

/-!
# Why a document is no request

A document fails to be a request in two ways: a name that has to be given is missing, or
the document is no tree of the right shape. Row limits and truth values never fail; what
cannot be read counts as not given.
-/

namespace FetchQuery

/-- Why a document is not a fetch document at all. -/
inductive Malformation where
  /-- The document has no tree. -/
  | document (fault : Xml.DocumentFault)
  /-- The root is another element. -/
  | wrongRoot (found : Text)
  /-- The first element in the root is no entity. -/
  | wrongFirstChild (found : Text)
  /-- The root has no element in it. -/
  | noEntity
  deriving DecidableEq, Repr

namespace Malformation

/-- The wording of a malformation. -/
def detail : Malformation → Text
  | document fault => fault.message
  | wrongRoot found => "expected <fetch> as the root element, found <" ++ found ++ ">"
  | wrongFirstChild found =>
      "expected <entity> as the first child of <fetch>, found <" ++ found ++ ">"
  | noEntity => "<fetch> has no <entity>"

end Malformation

/-- Why a document is no request. -/
inductive Fault where
  /-- An attribute that has to be there is not, on an element with its tag as written. -/
  | missing (element field : Text)
  | malformed (cause : Malformation)
  deriving DecidableEq, Repr

namespace Fault

/-- The wording of a missing attribute. -/
def missingMessage (element field : Text) : Text :=
  "missing required attribute '" ++ field ++ "' on <" ++ element ++ ">"

/-- The wording of a malformation with a detail. -/
def malformedMessage (detail : Text) : Text :=
  "malformed fetch document: " ++ detail

/-- The wording of a fault. -/
def message : Fault → Text
  | missing element field => missingMessage element field
  | malformed cause => malformedMessage cause.detail

end Fault

end FetchQuery
