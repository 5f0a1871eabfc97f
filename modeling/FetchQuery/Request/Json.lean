import FetchQuery.Json.Basic
import FetchQuery.Request.Basic

/-!
# Requests as JSON

A request is an object whose members are its fields, in their order. Absent optional
fields are left out, empty lists are kept. A link has its join as its first member,
followed by the members of its entity.
-/

namespace FetchQuery

open Json

/-- The members of an object. -/
abbrev Members := List (Text × Value)

/-- A member that is always there. -/
def member (name : Text) (value : Value) : Members :=
  [(name, value)]

/-- A member that is left out if its value is absent. -/
def optionalMember (name : Text) (value : Option Value) : Members :=
  match value with
  | none => []
  | some value => member name value

namespace Join

/-- A join as JSON. -/
def toJson (join : Join) : Value :=
  .object (optionalMember "from" (join.linkedColumn.map .text) ++
    optionalMember "to" (join.parentColumn.map .text))

end Join

namespace Condition

/-- A condition as JSON. -/
def toJson (condition : Condition) : Value :=
  .object (optionalMember "attribute" (condition.column.map .text) ++
    optionalMember "operator" (condition.operator.map .text) ++
    optionalMember "value" (condition.value.map .text))

end Condition

namespace Filter

/-- A filter as JSON. -/
def toJson (filter : Filter) : Value :=
  .object (member "conditions" (.list (filter.conditions.map Condition.toJson)))

end Filter

namespace Order

/-- An order as JSON. -/
def toJson (order : Order) : Value :=
  .object (optionalMember "attribute" (order.column.map .text) ++
    member "descending" (.bool order.descending))

end Order

mutual

/-- The members of an entity. -/
def Entity.members : Entity → Members
  | ⟨name, attributes, filter, linked, orders⟩ =>
      member "name" (.text name) ++ member "attributes" (.list (attributes.map .text)) ++
        optionalMember "filter" (filter.map Filter.toJson) ++ Link.optionalMembers linked ++
        optionalMember "orders" (orders.map fun orders => .list (orders.map Order.toJson))

/-- The member for the links of an entity, if it says anything of links. -/
def Link.optionalMembers : Option (List Link) → Members
  | none => []
  | some links => member "linked_entities" (.list (Link.listToJson links))

/-- Links as JSON, one by one. -/
def Link.listToJson : List Link → List Value
  | [] => []
  | ⟨join, entity⟩ :: links =>
      .object (member "join" join.toJson ++ entity.members) :: Link.listToJson links

end

namespace Request

/-- A request as JSON. -/
def toJson (request : Request) : Value :=
  .object (member "top" (.number request.rowLimit.toNat) ++
    member "no_lock" (.bool request.noLock) ++ member "entity" (.object request.entity.members))

end Request

end FetchQuery
