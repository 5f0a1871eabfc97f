import FetchQuery.Text.AsciiCase

/-!
# Elements

The tree of a document. An element has a name, attributes in the order in which they
were written, and the elements directly inside it. Tags are compared without regard to
letter case, attribute keys exactly.
-/

namespace FetchQuery

namespace Xml

open Text

/-- A key and the value it stands for. -/
structure Attribute where
  key : Text
  value : Text
  deriving DecidableEq, Repr

/-- An element with its attributes and the elements inside it. -/
structure Element where
  name : Text
  attributes : List Attribute
  children : List Element
  deriving Repr

namespace Element

mutual

/-- Equality of trees can be decided. -/
def decEq : (first second : Element) → Decidable (first = second)
  | ⟨name, attributes, children⟩, ⟨name', attributes', children'⟩ =>
      have : Decidable (children = children') := decEqList children children'
      decidable_of_iff (name = name' ∧ attributes = attributes' ∧ children = children') (by simp)

/-- Equality of lists of trees can be decided. -/
def decEqList : (first second : List Element) → Decidable (first = second)
  | [], [] => isTrue rfl
  | [], _ :: _ => isFalse (by simp)
  | _ :: _, [] => isFalse (by simp)
  | element :: first, element' :: second =>
      have : Decidable (element = element') := decEq element element'
      have : Decidable (first = second) := decEqList first second
      decidable_of_iff (element = element' ∧ first = second) (by simp)

end

instance : DecidableEq Element := decEq

/-- An element whose name is a tag, up to letter case. -/
def hasTag (element : Element) (tag : Text) : Bool :=
  sameLetters element.name tag

/-- The value of the first attribute with a key. -/
def attribute? (element : Element) (key : Text) : Option Text :=
  (element.attributes.find? fun pair => pair.key == key).map Attribute.value

/-- The children with a tag, in order. -/
def childrenNamed (element : Element) (tag : Text) : List Element :=
  element.children.filter fun child => child.hasTag tag

/-- The first filter among the children. -/
def filter? (element : Element) : Option Element :=
  element.children.find? fun child => child.hasTag "filter"

/-- The element reached by going down from child to child, each given by its index. -/
def descend? (element : Element) : List Nat → Option Element
  | [] => some element
  | index :: path => do
      let child ← element.children[index]?
      child.descend? path

end Element

end Xml

end FetchQuery
