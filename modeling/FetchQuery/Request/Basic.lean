import FetchQuery.Text.Basic

/-!
# Fetch requests

A request asks for rows of one entity, with a limit on their number. An entity has the
columns to show, at most one filter, links to other entities and sort orders. A link is
an entity again, so requests are trees; `Entity.walk` lists the entities of one.

What a document need not say is optional here: an absent text is not the empty text, and
no links are not an empty list of links.
-/

namespace FetchQuery

/-- The columns that a join compares. -/
structure Join where
  linkedColumn : Option Text
  parentColumn : Option Text
  deriving DecidableEq, Repr

/-- One predicate of a filter. -/
structure Condition where
  column : Option Text
  operator : Option Text
  value : Option Text
  deriving DecidableEq, Repr

/-- The predicates that rows have to satisfy. -/
structure Filter where
  conditions : List Condition
  deriving DecidableEq, Repr

/-- A column to sort by. -/
structure Order where
  column : Option Text
  descending : Bool
  deriving DecidableEq, Repr

mutual

/-- A source of rows, with what is asked of it. -/
structure Entity where
  name : Text
  attributes : List Text
  filter : Option Filter
  linked : Option (List Link)
  orders : Option (List Order)

/-- An entity that is joined to the one it stands in. -/
structure Link where
  join : Join
  entity : Entity

end

/-- A whole request. A row limit of zero is no limit. -/
structure Request where
  rowLimit : UInt32
  noLock : Bool
  entity : Entity

mutual

/-- Equality of entities can be decided. -/
def Entity.decEq : (first second : Entity) → Decidable (first = second)
  | ⟨name, attributes, filter, linked, orders⟩, ⟨name', attributes', filter', linked', orders'⟩ =>
      have : Decidable (linked = linked') := Link.decEqOption linked linked'
      decidable_of_iff (name = name' ∧ attributes = attributes' ∧ filter = filter' ∧
        linked = linked' ∧ orders = orders') (by simp)

/-- Equality of links can be decided. -/
def Link.decEq : (first second : Link) → Decidable (first = second)
  | ⟨join, entity⟩, ⟨join', entity'⟩ =>
      have : Decidable (entity = entity') := Entity.decEq entity entity'
      decidable_of_iff (join = join' ∧ entity = entity') (by simp)

/-- Equality of lists of links can be decided. -/
def Link.decEqList : (first second : List Link) → Decidable (first = second)
  | [], [] => isTrue rfl
  | [], _ :: _ => isFalse (by simp)
  | _ :: _, [] => isFalse (by simp)
  | link :: first, link' :: second =>
      have : Decidable (link = link') := Link.decEq link link'
      have : Decidable (first = second) := Link.decEqList first second
      decidable_of_iff (link = link' ∧ first = second) (by simp)

/-- Equality of optional lists of links can be decided. -/
def Link.decEqOption : (first second : Option (List Link)) → Decidable (first = second)
  | none, none => isTrue rfl
  | none, some _ => isFalse (by simp)
  | some _, none => isFalse (by simp)
  | some first, some second =>
      have : Decidable (first = second) := Link.decEqList first second
      decidable_of_iff (first = second) (by simp)

end

instance : DecidableEq Entity := Entity.decEq

instance : DecidableEq Link := Link.decEq

deriving instance DecidableEq for Request

/-- The links of an entity, none if it says nothing of links. -/
def Entity.links (entity : Entity) : List Link :=
  entity.linked.getD []

mutual

/-- The entities of a request tree, each before the ones that are linked to it. -/
def Entity.walk : Entity → List Entity
  | ⟨name, attributes, filter, linked, orders⟩ =>
      ⟨name, attributes, filter, linked, orders⟩ :: Link.walkOption linked

/-- The entities below an optional list of links. -/
def Link.walkOption : Option (List Link) → List Entity
  | none => []
  | some links => Link.walkList links

/-- The entities below a list of links. -/
def Link.walkList : List Link → List Entity
  | [] => []
  | ⟨_, entity⟩ :: links => entity.walk ++ Link.walkList links

end

theorem Link.walkList_eq (links : List Link) :
    Link.walkList links = links.flatMap fun link => link.entity.walk := by
  induction links with
  | nil => rfl
  | cons link links ih =>
      obtain ⟨join, entity⟩ := link
      simp [Link.walkList, ih]

/-- A walk is the entity and the walks of its links, in order. -/
theorem Entity.walk_eq (entity : Entity) :
    entity.walk = entity :: entity.links.flatMap fun link => link.entity.walk := by
  obtain ⟨name, attributes, filter, linked, orders⟩ := entity
  cases linked with
  | none => simp [Entity.walk, Link.walkOption, Entity.links]
  | some links => simp [Entity.walk, Link.walkOption, Entity.links, Link.walkList_eq]

end FetchQuery
