import FetchQuery.Text.Blank
import FetchQuery.Text.Numeral
import FetchQuery.Request.Basic
import FetchQuery.Request.Fault
import FetchQuery.Xml.Document

/-!
# Reading requests

A fetch document has `fetch` as its root and an entity as the first element in it. Names
of entities and of their attributes have to be given. They are asked for in a fixed
order, wherever the elements stand: the entity itself, its attributes, then its links,
each with all that is below it.

Row limits and truth values are lenient: white space around them is dropped, and what
cannot be read counts as absent. Only the first filter of an entity counts, every
element in it is a condition, and a filter without conditions counts as absent.
-/

namespace FetchQuery

open Text Xml

/-- The largest row limit that is heeded. -/
def rowLimitBound : Nat :=
  0x7FFFFFFF

/-- The row limit that a value asks for, zero if it asks for none. -/
def readRowLimit (value : Option Text) : UInt32 :=
  match value with
  | none => 0
  | some text =>
      match readUnsigned rowLimitBound (trim text) with
      | .ok limit => limit.toUInt32
      | .error _ => 0

/-- The truth value of an attribute: `true` in any letter case, and false otherwise. -/
def readFlag (value : Option Text) : Bool :=
  match value with
  | none => false
  | some text => sameLetters (trim text) "true"

/-- The name that an element has to give. -/
def requiredName (element : Element) : Except Fault Text :=
  match element.attribute? "name" with
  | some name => .ok name
  | none => .error (.missing element.name "name")

namespace Condition

/-- The condition that an element states. -/
def ofElement (element : Element) : Condition where
  column := element.attribute? "attribute"
  operator := element.attribute? "operator"
  value := element.attribute? "value"

end Condition

namespace Filter

/-- The filter that an element states, if it has conditions. -/
def ofElement? (element : Element) : Option Filter :=
  match element.children with
  | [] => none
  | conditions => some ⟨conditions.map Condition.ofElement⟩

end Filter

namespace Order

/-- The order that an element states. -/
def ofElement (element : Element) : Order where
  column := element.attribute? "attribute"
  descending := readFlag (element.attribute? "descending")

end Order

namespace Join

/-- The join that a link states. -/
def ofElement (element : Element) : Join where
  linkedColumn := element.attribute? "from"
  parentColumn := element.attribute? "to"

end Join

/-- A list, or nothing if it is empty. -/
def someUnlessEmpty {α : Type} : List α → Option (List α)
  | [] => none
  | items => some items

mutual

/-- The entity that an element states. -/
def Entity.ofElement : Element → Except Fault Entity
  | ⟨tag, keys, children⟩ => do
      let element : Element := ⟨tag, keys, children⟩
      let name ← requiredName element
      let attributes ← (element.childrenNamed "attribute").mapM requiredName
      let links ← Link.ofChildren children
      return {
        name
        attributes
        filter := element.filter?.bind Filter.ofElement?
        linked := someUnlessEmpty links
        orders := someUnlessEmpty ((element.childrenNamed "order").map Order.ofElement) }

/-- The links among some elements, each with all that is below it. -/
def Link.ofChildren : List Element → Except Fault (List Link)
  | [] => .ok []
  | child :: rest =>
      if child.hasTag "link-entity" then do
        let entity ← Entity.ofElement child
        let more ← Link.ofChildren rest
        return ⟨Join.ofElement child, entity⟩ :: more
      else Link.ofChildren rest

end

namespace Request

/-- The request that the root of a document states. -/
def ofElement (root : Element) : Except Fault Request :=
  if root.hasTag "fetch" then
    match root.children with
    | [] => .error (.malformed .noEntity)
    | first :: _ =>
        if first.hasTag "entity" then do
          let entity ← Entity.ofElement first
          return {
            rowLimit := readRowLimit (root.attribute? "top")
            noLock := readFlag (root.attribute? "no-lock")
            entity }
        else .error (.malformed (.wrongFirstChild first.name))
  else .error (.malformed (.wrongRoot root.name))

/-- Reads a fetch document. -/
def ofDocument (document : Text) : Except Fault Request := do
  let root ← (Element.ofDocument document).mapError fun fault => .malformed (.document fault)
  ofElement root

end Request

end FetchQuery
