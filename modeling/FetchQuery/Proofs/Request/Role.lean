import FetchQuery.Xml.Element

/-!
# Roles of elements

The elements of a fetch document play roles. The root and its first child have theirs by
their place, the conditions by standing in a filter, and what an entity or a link is made
of by its tag. The role of an element decides the keys that are looked up in it and the
children that are read.
-/

namespace FetchQuery

open Text Xml

/-- What an element is read as. -/
inductive Role where
  | fetch
  | entity
  | link
  | column
  | filter
  | condition
  | order
  deriving DecidableEq, Repr

namespace Role

/-- The keys that are looked up in an element. -/
def keys : Role → List Text
  | fetch => ["top", "no-lock"]
  | entity => ["name"]
  | link => ["name", "from", "to"]
  | column => ["name"]
  | filter => []
  | condition => ["attribute", "operator", "value"]
  | order => ["attribute", "descending"]

/-- No element is asked for a key in two ways. -/
theorem keys_nodup (role : Role) : role.keys.Nodup := by
  cases role <;> decide +kernel

/-- The tag that gives a child of an entity or link its role. -/
def tag? : Role → Option Text
  | column => some "attribute"
  | filter => some "filter"
  | link => some "link-entity"
  | order => some "order"
  | _ => none

/-- No two roles have the same tag. -/
theorem eq_of_tag? {part part' : Role} {tag tag' : Text} (h : part.tag? = some tag)
    (h' : part'.tag? = some tag') (same : sameLetters tag tag' = true) : part = part' := by
  cases part <;> cases h <;> cases part' <;> cases h' <;>
    first
    | rfl
    | exact absurd same (by decide +kernel)

/-- The children of an entity or link that are read in a role, of filters only the first. -/
def sourceParts (part : Role) (children : List Element) : List Element :=
  match part.tag? with
  | none => []
  | some tag =>
      let tagged := children.filter fun child => child.hasTag tag
      if part = filter then tagged.take 1 else tagged

/-- The children of an element that are read in a role. -/
def parts (role part : Role) (children : List Element) : List Element :=
  match role, part with
  | fetch, entity => children.take 1
  | entity, part => sourceParts part children
  | link, part => sourceParts part children
  | filter, condition => children
  | _, _ => []

/-- The roles in which an element states an entity. -/
inductive IsSource : Role → Prop
  | entity : IsSource entity
  | link : IsSource link

theorem IsSource.parts_eq {role : Role} (source : role.IsSource) :
    role.parts = sourceParts := by
  cases source <;> rfl

theorem mem_of_mem_sourceParts {part : Role} {children : List Element} {child : Element}
    (h : child ∈ sourceParts part children) : child ∈ children := by
  unfold sourceParts at h
  split at h
  · exact nomatch h
  · split at h
    · exact (List.mem_filter.mp (List.mem_of_mem_take h)).1
    · exact (List.mem_filter.mp h).1

theorem mem_of_mem_parts {role part : Role} {children : List Element} {child : Element}
    (h : child ∈ role.parts part children) : child ∈ children := by
  unfold parts at h
  split at h
  · exact List.mem_of_mem_take h
  · exact mem_of_mem_sourceParts h
  · exact mem_of_mem_sourceParts h
  · exact h
  · exact nomatch h

end Role

end FetchQuery
