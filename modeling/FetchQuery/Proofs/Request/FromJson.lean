import FetchQuery.Request.Json
import FetchQuery.Proofs.Json.Printing
import FetchQuery.Proofs.Request.Canonical

/-!
# Requests read from JSON

A JSON text is read as a request by looking up the members of its objects by name. A member
that need not be there is absent if it is missing, and a link is its join and the entity
whose members stand beside it. Every request is read back from its text in either style, also
one that no document states (`Request.ofJson?_write`).
-/

namespace FetchQuery

open Text Json

/-! ### Reading requests -/

namespace Json

/-- The members of an object that was read. -/
abbrev Fields := List (Text × Tree)

/-- The first member with a name. -/
def Fields.get? (fields : Fields) (name : Text) : Option Tree :=
  fields.lookup name

namespace Tree

/-- The truth value that a tree is. -/
def bool? : Tree → Option Bool
  | .bool value => some value
  | _ => none

/-- The number of 32 bits that a tree is. -/
def word? : Tree → Option UInt32
  | .number literal =>
      match readNumeral 10 0xFFFFFFFF literal with
      | .ok value => some value.toUInt32
      | .error _ => none
  | _ => none

/-- The text that a tree is. -/
def text? : Tree → Option Text
  | .text value => some value
  | _ => none

/-- The list that a tree is, each item read in the same way. -/
def list? {α : Type} (item : Tree → Option α) : Tree → Option (List α)
  | .list items => items.mapM item
  | _ => none

/-- The members of the object that a tree is. -/
def object? : Tree → Option Fields
  | .object members => some members
  | _ => none

end Tree

end Json

/-- A member that may be missing. -/
def optionally {α : Type} (read : Tree → Option α) : Option Tree → Option (Option α)
  | none => some none
  | some tree => (read tree).map some

/-- The join that a tree is. -/
def Join.ofTree? (tree : Tree) : Option Join := do
  let fields ← tree.object?
  let linkedColumn ← optionally Tree.text? (fields.get? "from")
  let parentColumn ← optionally Tree.text? (fields.get? "to")
  return { linkedColumn, parentColumn }

/-- The condition that a tree is. -/
def Condition.ofTree? (tree : Tree) : Option Condition := do
  let fields ← tree.object?
  let column ← optionally Tree.text? (fields.get? "attribute")
  let operator ← optionally Tree.text? (fields.get? "operator")
  let value ← optionally Tree.text? (fields.get? "value")
  return { column, operator, value }

/-- The filter that a tree is. -/
def Filter.ofTree? (tree : Tree) : Option Filter := do
  let fields ← tree.object?
  let conditions ← (fields.get? "conditions").bind (Tree.list? Condition.ofTree?)
  return { conditions }

/-- The order that a tree is. -/
def Order.ofTree? (tree : Tree) : Option Order := do
  let fields ← tree.object?
  let column ← optionally Tree.text? (fields.get? "attribute")
  let descending ← (fields.get? "descending").bind Tree.bool?
  return { column, descending }

/-- The entity with the members of an object, given its links. -/
def Entity.withLinks? (fields : Fields) (linked : Option (List Link)) :
    Option Entity := do
  let name ← (fields.get? "name").bind Tree.text?
  let attributes ← (fields.get? "attributes").bind (Tree.list? Tree.text?)
  let filter ← optionally Filter.ofTree? (fields.get? "filter")
  let orders ← optionally (Tree.list? Order.ofTree?) (fields.get? "orders")
  return { name, attributes, filter, linked, orders }

mutual

/-- The link that a tree is. -/
def Link.ofTree? : Tree → Option Link
  | .object fields => do
      let join ← (Fields.get? fields "join").bind Join.ofTree?
      let linked ← Link.ofFields? fields
      let entity ← Entity.withLinks? fields linked
      return { join, entity }
  | _ => none

/-- The links that some trees are. -/
def Link.ofTrees? : List Tree → Option (List Link)
  | [] => some []
  | tree :: trees => do
      let link ← Link.ofTree? tree
      let links ← Link.ofTrees? trees
      return link :: links

/-- The list of links that a tree is. -/
def Link.ofList? : Tree → Option (List Link)
  | .list trees => Link.ofTrees? trees
  | _ => none

/-- The links in the first member for them, absent if there is none. -/
def Link.ofFields? : Fields → Option (Option (List Link))
  | [] => some none
  | (name, tree) :: fields =>
      if name = "linked_entities" then (Link.ofList? tree).map some else Link.ofFields? fields

end

/-- The entity with the members of an object. -/
def Entity.ofFields? (fields : Fields) : Option Entity := do
  let linked ← Link.ofFields? fields
  Entity.withLinks? fields linked

namespace Request

/-- The request that a tree is. -/
def ofTree? (tree : Tree) : Option Request := do
  let fields ← tree.object?
  let rowLimit ← (fields.get? "top").bind Tree.word?
  let noLock ← (fields.get? "no_lock").bind Tree.bool?
  let members ← (fields.get? "entity").bind Tree.object?
  let entity ← Entity.ofFields? members
  return { rowLimit, noLock, entity }

/-- The request that a JSON text is for. -/
def ofJson? (text : Text) : Option Request := do
  let tree ← Tree.read? text
  ofTree? tree

end Request

theorem Link.ofTrees?_eq (trees : List Tree) :
    Link.ofTrees? trees = trees.mapM Link.ofTree? := by
  induction trees with
  | nil => rfl
  | cons tree trees ih => rw [Link.ofTrees?, ih, List.mapM_cons]

theorem Link.ofList?_eq (tree : Tree) : Link.ofList? tree = tree.list? Link.ofTree? := by
  cases tree with
  | list trees => rw [Link.ofList?, Link.ofTrees?_eq, Tree.list?]
  | _ => rfl

/-- The links are looked up like all other members. -/
theorem Link.ofFields?_eq (fields : Fields) :
    Link.ofFields? fields =
      optionally (Tree.list? Link.ofTree?) (fields.get? "linked_entities") := by
  induction fields with
  | nil => rfl
  | cons field fields ih =>
      obtain ⟨name, tree⟩ := field
      rw [Link.ofFields?, Link.ofList?_eq, Fields.get?, List.lookup_cons]
      by_cases named : name = "linked_entities"
      · rw [if_pos named, beq_iff_eq.mpr named.symm]
        rfl
      · rw [if_neg named, beq_eq_false_iff_ne.mpr (Ne.symm named)]
        exact ih

/-! ### Members that were written -/

/-- What is found under a name among some members. -/
def field (members : Members) (name : Text) : Option Tree :=
  Fields.get? (Value.memberTrees members) name

theorem get?_memberTrees (members : Members) (name : Text) :
    Fields.get? (Value.memberTrees members) name = field members name :=
  rfl

@[simp] theorem field_append (first second : Members) (name : Text) :
    field (first ++ second) name = (field first name).or (field second name) := by
  simp only [field, Fields.get?, Value.memberTrees_eq, List.map_append, List.lookup_append]

@[simp] theorem field_member (key name : Text) (value : Value) :
    field (member key value) name = if name = key then some value.tree else none := by
  by_cases same : name = key
  · simp [field, Fields.get?, member, Value.memberTrees, same]
  · simp [field, Fields.get?, member, Value.memberTrees, same, List.lookup_cons,
      beq_eq_false_iff_ne.mpr same]

@[simp] theorem field_optionalMember (key name : Text) (value : Option Value) :
    field (optionalMember key value) name = if name = key then value.map Value.tree else none := by
  cases value with
  | none => simp [field, Fields.get?, optionalMember, Value.memberTrees]
  | some value => rw [optionalMember, field_member, Option.map_some]

section

variable {α : Type} {read : Tree → Option α} {write : α → Value}

/-- An optional member is read back, absent or not. -/
theorem optionally_map (h : ∀ item, read (write item).tree = some item) (item : Option α) :
    optionally read (item.map (Value.tree ∘ write)) = some item := by
  cases item with
  | none => rfl
  | some item => simp only [Option.map_some, Function.comp_apply, optionally, h]

/-- A list is read back, empty or not. -/
theorem list?_map {items : List α} (h : ∀ item ∈ items, read (write item).tree = some item) :
    Tree.list? read (.list (Value.trees (items.map write))) = some items := by
  rw [Value.trees_eq, List.map_map, Tree.list?]
  induction items with
  | nil => rfl
  | cons item items ih =>
      rw [List.forall_mem_cons] at h
      rw [List.map_cons, List.mapM_cons, Function.comp_apply, h.1, ih h.2]
      rfl

end

/-! ### Requests are read back -/

theorem Json.Tree.text?_tree (text : Text) : Tree.text? (Value.text text).tree = some text :=
  rfl

theorem Json.Tree.word?_decimal (word : UInt32) :
    Tree.word? (.number (decimal word.toNat)) = some word := by
  have small : word.toNat ≤ 0xFFFFFFFF := Nat.le_of_lt_succ word.toNat_lt
  have read : readNumeral 10 0xFFFFFFFF (decimal word.toNat) = .ok word.toNat :=
    (readNumeral_eq_ok_iff (by decide)).mpr ⟨isNumeral_decimal word.toNat, small⟩
  rw [Tree.word?, read]
  exact congrArg some UInt32.ofNat_toNat

theorem Join.ofTree?_toJson (join : Join) : Join.ofTree? join.toJson.tree = some join := by
  simp [Join.ofTree?, Join.toJson, Value.tree, Tree.object?, get?_memberTrees,
    optionally_map Tree.text?_tree]

theorem Condition.ofTree?_toJson (condition : Condition) :
    Condition.ofTree? condition.toJson.tree = some condition := by
  simp [Condition.ofTree?, Condition.toJson, Value.tree, Tree.object?, get?_memberTrees,
    optionally_map Tree.text?_tree]

theorem Filter.ofTree?_toJson (filter : Filter) :
    Filter.ofTree? filter.toJson.tree = some filter := by
  have conditions := list?_map fun condition (_ : condition ∈ filter.conditions) =>
    condition.ofTree?_toJson
  simp [Filter.ofTree?, Filter.toJson, Value.tree, Tree.object?, get?_memberTrees, conditions]

theorem Order.ofTree?_toJson (order : Order) : Order.ofTree? order.toJson.tree = some order := by
  simp [Order.ofTree?, Order.toJson, Value.tree, Tree.object?, Tree.bool?, get?_memberTrees,
    optionally_map Tree.text?_tree]

/-- The members for an entity, with its links as one of them. -/
theorem Entity.members_eq (entity : Entity) :
    entity.members =
      member "name" (.text entity.name) ++
        member "attributes" (.list (entity.attributes.map .text)) ++
        optionalMember "filter" (entity.filter.map Filter.toJson) ++
        optionalMember "linked_entities"
          (entity.linked.map fun links => .list (Link.listToJson links)) ++
        optionalMember "orders"
          (entity.orders.map fun orders => .list (orders.map Order.toJson)) := by
  obtain ⟨name, attributes, filter, linked, orders⟩ := entity
  cases linked <;> rfl

/-- What a link is written as. -/
def Link.toJson (link : Link) : Value :=
  .object (member "join" link.join.toJson ++ link.entity.members)

theorem Link.listToJson_eq (links : List Link) : Link.listToJson links = links.map Link.toJson := by
  induction links with
  | nil => rfl
  | cons link links ih =>
      obtain ⟨join, entity⟩ := link
      rw [Link.listToJson, ih, List.map_cons, Link.toJson]

/-- Members that are no members of entities. -/
def IsApartFromEntity (members : Members) : Prop :=
  ∀ name ∈ (["name", "attributes", "filter", "linked_entities", "orders"] : List Text),
    field members name = none

theorem isApartFromEntity_nil : IsApartFromEntity [] :=
  fun _ _ => rfl

theorem isApartFromEntity_join (join : Value) : IsApartFromEntity (member "join" join) := by
  simp [IsApartFromEntity]

section

variable {entity : Entity} {others : Members}

/-- Where the links of an entity are read back, so is the entity. -/
theorem Entity.ofFields?_members_of_links (apart : IsApartFromEntity others)
    (readLink : ∀ link ∈ entity.links, Link.ofTree? link.toJson.tree = some link) :
    Entity.ofFields? (Value.memberTrees (others ++ entity.members)) = some entity := by
  have readLinks : optionally (Tree.list? Link.ofTree?)
      (entity.linked.map (Value.tree ∘ fun links => .list (Link.listToJson links))) =
        some entity.linked := by
    cases given : entity.linked with
    | none => rfl
    | some links =>
        rw [Entity.links, given, Option.getD_some] at readLink
        simp only [Option.map_some, Function.comp_apply, optionally, Value.tree,
          Link.listToJson_eq, list?_map readLink]
  have readAttributes := list?_map fun column (_ : column ∈ entity.attributes) =>
    Tree.text?_tree column
  have readOrders (orders : List Order) :
      Tree.list? Order.ofTree? (Value.list (orders.map Order.toJson)).tree = some orders :=
    list?_map fun order _ => order.ofTree?_toJson
  simp [IsApartFromEntity] at apart
  obtain ⟨name, attributes, filter, linked, orders⟩ := apart
  simp [Entity.ofFields?, Entity.withLinks?, Link.ofFields?_eq, get?_memberTrees,
    Entity.members_eq, name, attributes, filter, linked, orders, Value.tree, Tree.text?,
    readAttributes, optionally_map Filter.ofTree?_toJson, optionally_map readOrders, readLinks]
  cases entity
  rfl

/-- A link is read back where its entity is, which stands behind its join. -/
theorem Link.ofTree?_toJson_of_entity {link : Link}
    (readEntity : Entity.ofFields? (Value.memberTrees
      (member "join" link.join.toJson ++ link.entity.members)) = some link.entity) :
    Link.ofTree? link.toJson.tree = some link := by
  rw [Entity.ofFields?, Option.bind_eq_bind, Option.bind_eq_some_iff] at readEntity
  obtain ⟨linked, links, rest⟩ := readEntity
  have join : (field (member "join" link.join.toJson ++ link.entity.members) "join").bind
      Join.ofTree? = some link.join := by
    simp [Join.ofTree?_toJson]
  rw [Link.toJson, Value.tree, Link.ofTree?, get?_memberTrees, join, links]
  simp only [Option.bind_eq_bind, Option.bind_some, rest]
  cases link
  rfl

/-- An entity is read back from its members, also where others stand before them. -/
theorem Entity.ofFields?_members (apart : IsApartFromEntity others) :
    Entity.ofFields? (Value.memberTrees (others ++ entity.members)) = some entity := by
  induction entity using Entity.induction generalizing others with
  | step entity ih =>
      apply Entity.ofFields?_members_of_links apart
      intro link present
      apply Link.ofTree?_toJson_of_entity
      exact ih link present (isApartFromEntity_join _)

end

namespace Request

theorem ofTree?_toJson (request : Request) : ofTree? request.toJson.tree = some request := by
  have entity : Entity.ofFields? (Value.memberTrees request.entity.members) =
      some request.entity :=
    Entity.ofFields?_members isApartFromEntity_nil
  simp [ofTree?, toJson, Value.tree, Tree.object?, Tree.bool?, get?_memberTrees,
    Tree.word?_decimal, entity]

/-- Whatever a request is, its text in either style is a JSON text, the request is read back
from it, and no other request has the text. -/
theorem ofJson?_write (request : Request) (style : Style) :
    (∃ tree, IsJson tree (request.toJson.write style)) ∧
      ofJson? (request.toJson.write style) = some request ∧
      ∀ other, other.toJson.write style = request.toJson.write style ↔ other = request := by
  have read (request : Request) : ofJson? (request.toJson.write style) = some request := by
    rw [ofJson?, read?_write]
    exact request.ofTree?_toJson
  refine ⟨⟨_, isJson_write style request.toJson⟩, read request, fun other => ?_⟩
  constructor
  · intro same
    have first := read other
    rw [same, read request] at first
    exact (Option.some.inj first).symm
  · rintro rfl
    rfl

end Request

end FetchQuery
