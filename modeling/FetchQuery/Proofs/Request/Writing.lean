import FetchQuery.Proofs.Request.Canonical
import FetchQuery.Proofs.Request.Document
import FetchQuery.Proofs.Request.Role
import FetchQuery.Proofs.Xml.Writing

/-!
# Requests as documents

`Request.toElement` writes a request out as elements, an absent text by leaving its
attribute out and an absent list by leaving out its elements. Every element has its
attributes under keys of a fixed list and its children in groups of one tag, so that
reading finds all attributes and all groups again.
-/

namespace FetchQuery

open Text Xml

/-- The attribute for a text, if there is one. -/
def optional (key : Text) (value : Option Text) : List Attribute :=
  (value.map (Attribute.mk key)).toList

/-- The text for a truth value. -/
def flagText (flag : Bool) : Text :=
  if flag then "true" else "false"

/-- The element for a column. -/
def columnElement (name : Text) : Element :=
  ⟨"attribute", [⟨"name", name⟩], []⟩

namespace Condition

/-- The element for a condition. -/
def toElement (condition : Condition) : Element :=
  ⟨"condition", optional "attribute" condition.column ++
    (optional "operator" condition.operator ++ optional "value" condition.value), []⟩

end Condition

namespace Filter

/-- The element for a filter. -/
def toElement (filter : Filter) : Element :=
  ⟨"filter", [], filter.conditions.map Condition.toElement⟩

end Filter

namespace Order

/-- The element for an order. -/
def toElement (order : Order) : Element :=
  ⟨"order", optional "attribute" order.column ++ [⟨"descending", flagText order.descending⟩], []⟩

end Order

namespace Join

/-- The element for a link with a join, given the name and the children of its entity. -/
def toElement (join : Join) (name : Text) (children : List Element) : Element :=
  ⟨"link-entity", ⟨"name", name⟩ ::
    (optional "from" join.linkedColumn ++ optional "to" join.parentColumn), children⟩

end Join

mutual

/-- The children of the element for an entity. -/
def Entity.toChildren : Entity → List Element
  | ⟨_, attributes, filter, linked, orders⟩ =>
      attributes.map columnElement ++ (filter.toList.map Filter.toElement ++
        (Link.toChildrenOption linked ++ (orders.getD []).map Order.toElement))

/-- The elements for an optional list of links. -/
def Link.toChildrenOption : Option (List Link) → List Element
  | none => []
  | some links => Link.toChildren links

/-- The elements for a list of links. -/
def Link.toChildren : List Link → List Element
  | [] => []
  | ⟨join, entity⟩ :: links =>
      join.toElement entity.name entity.toChildren :: Link.toChildren links

end

namespace Link

/-- The element for a link. -/
def toElement (link : Link) : Element :=
  link.join.toElement link.entity.name link.entity.toChildren

theorem toChildren_eq (links : List Link) : Link.toChildren links = links.map Link.toElement := by
  induction links with
  | nil => rfl
  | cons link links ih =>
      obtain ⟨join, entity⟩ := link
      rw [Link.toChildren, ih, List.map_cons, Link.toElement]

end Link

namespace Entity

theorem toChildren_eq (entity : Entity) :
    entity.toChildren = entity.attributes.map columnElement ++
      (entity.filter.toList.map Filter.toElement ++ (entity.links.map Link.toElement ++
        (entity.orders.getD []).map Order.toElement)) := by
  obtain ⟨name, attributes, filter, linked, orders⟩ := entity
  cases linked with
  | none => rfl
  | some links => rw [Entity.toChildren, Link.toChildrenOption, Link.toChildren_eq, Entity.links,
      Option.getD_some]

/-- The element for an entity. -/
def toElement (entity : Entity) : Element :=
  ⟨"entity", [⟨"name", entity.name⟩], entity.toChildren⟩

end Entity

namespace Request

/-- The root for a request. -/
def toElement (request : Request) : Element :=
  ⟨"fetch", [⟨"top", decimal request.rowLimit.toNat⟩, ⟨"no-lock", flagText request.noLock⟩],
    [request.entity.toElement]⟩

/-- The document for a request. -/
def write (request : Request) : Text :=
  request.toElement.write

end Request

/-! ### Attributes -/

theorem mem_optional {key key' text : Text} {value : Option Text} :
    ⟨key', text⟩ ∈ optional key value ↔ key' = key ∧ value = some text := by
  cases value with
  | none => simp [optional]
  | some given => simp [optional, eq_comm]

theorem optional_keys_sublist (key : Text) (value : Option Text) :
    ((optional key value).map Attribute.key).Sublist [key] := by
  cases value <;> simp [optional]

namespace Condition

theorem toElement_keys_sublist (condition : Condition) :
    (condition.toElement.attributes.map Attribute.key).Sublist (Role.keys .condition) := by
  simp only [toElement, List.map_append]
  exact (optional_keys_sublist _ _).append
    ((optional_keys_sublist _ _).append (optional_keys_sublist _ _))

/-- A condition is read as it was written. -/
theorem ofElement_toElement (condition : Condition) :
    ofElement condition.toElement = condition := by
  have distinct := condition.toElement_keys_sublist.nodup (Role.keys_nodup _)
  obtain ⟨column, operator, value⟩ := condition
  simp only [ofElement, mk.injEq]
  refine ⟨?_, ?_, ?_⟩ <;> apply Element.attribute?_eq_of_mem_iff distinct <;>
    simp [toElement, mem_optional]

end Condition

/-- Only the order of conditions and what is in them make a filter. -/
theorem Filter.ofElement?_toElement {filter : Filter} (h : filter ≠ ⟨[]⟩) :
    Filter.ofElement? filter.toElement = some filter := by
  obtain ⟨conditions⟩ := filter
  cases conditions with
  | nil => exact absurd rfl h
  | cons condition conditions =>
      simp [toElement, ofElement?, Function.comp_def, Condition.ofElement_toElement]

theorem readFlag_flagText (flag : Bool) : readFlag (some (flagText flag)) = flag := by
  cases flag <;> decide +kernel

namespace Order

theorem toElement_keys_sublist (order : Order) :
    (order.toElement.attributes.map Attribute.key).Sublist (Role.keys .order) := by
  simp only [toElement, List.map_append]
  exact (optional_keys_sublist _ _).append (List.Sublist.refl _)

/-- An order is read as it was written. -/
theorem ofElement_toElement (order : Order) : ofElement order.toElement = order := by
  have distinct := order.toElement_keys_sublist.nodup (Role.keys_nodup _)
  have column : order.toElement.attribute? "attribute" = order.column := by
    apply Element.attribute?_eq_of_mem_iff distinct
    simp [toElement, mem_optional]
  have descending : order.toElement.attribute? "descending" = some (flagText order.descending) := by
    apply Element.attribute?_eq_of_mem_iff distinct
    simp [toElement, mem_optional, eq_comm]
  rw [ofElement, column, descending, readFlag_flagText]

end Order

namespace Link

theorem toElement_keys_sublist (link : Link) :
    (link.toElement.attributes.map Attribute.key).Sublist (Role.keys .link) := by
  simp only [toElement, Join.toElement, List.map_cons, List.map_append]
  exact ((optional_keys_sublist _ _).append (optional_keys_sublist _ _)).cons_cons _

/-- The join of a link is read as it was written. -/
theorem join_ofElement_toElement (link : Link) : Join.ofElement link.toElement = link.join := by
  have distinct := link.toElement_keys_sublist.nodup (Role.keys_nodup _)
  obtain ⟨⟨linkedColumn, parentColumn⟩, entity⟩ := link
  simp only [Join.ofElement, Join.mk.injEq]
  constructor <;> apply Element.attribute?_eq_of_mem_iff distinct <;>
    simp [toElement, Join.toElement, mem_optional]

end Link

/-! ### Children -/

namespace Entity

/-- The children of a written entity with a tag are those of the groups with the tag. -/
theorem filter_toChildren (entity : Entity) (tag : Text) :
    (entity.toChildren.filter fun child => child.hasTag tag) =
      (if sameLetters "attribute" tag then entity.attributes.map columnElement else []) ++
      ((if sameLetters "filter" tag then entity.filter.toList.map Filter.toElement else []) ++
      ((if sameLetters "link-entity" tag then entity.links.map Link.toElement else []) ++
      (if sameLetters "order" tag then (entity.orders.getD []).map Order.toElement else []))) := by
  rw [toChildren_eq, List.filter_append, List.filter_append, List.filter_append,
    filter_hasTag columnElement fun _ => rfl, filter_hasTag Filter.toElement fun _ => rfl,
    filter_hasTag Link.toElement fun _ => rfl, filter_hasTag Order.toElement fun _ => rfl]

/-- Each group of children of a written entity is found under its own tag. -/
theorem childrenNamed_of_toChildren {element : Element} {entity : Entity}
    (inside : element.children = entity.toChildren) :
    element.childrenNamed "attribute" = entity.attributes.map columnElement ∧
      element.childrenNamed "filter" = entity.filter.toList.map Filter.toElement ∧
      element.childrenNamed "link-entity" = entity.links.map Link.toElement ∧
      element.childrenNamed "order" = (entity.orders.getD []).map Order.toElement := by
  simp only [Element.childrenNamed, inside, filter_toChildren]
  refine ⟨?_, ?_, ?_, ?_⟩ <;> simp [sameLetters, toLower]

/-- The name of a column or an entity is read as it was written. -/
theorem requiredName_of_head {element : Element} {name : Text}
    (first : element.attributes.head? = some ⟨"name", name⟩) :
    requiredName element = .ok name := by
  obtain ⟨more, whole⟩ := List.head?_eq_some_iff.mp first
  rw [requiredName_eq_ok_iff]
  simp [Element.attribute?, whole]

/-- An entity or link that was written states the entity, however deep its links are. -/
theorem ofElement_of_toChildren {element : Element} {entity : Entity}
    (canonical : entity.Canonical) (first : element.attributes.head? = some ⟨"name", entity.name⟩)
    (inside : element.children = entity.toChildren) :
    Entity.ofElement element = .ok entity := by
  induction entity using Entity.induction generalizing element with
  | step entity ih =>
      obtain ⟨⟨hfilter, hlinked, horders⟩, below⟩ := canonical_iff.mp canonical
      obtain ⟨columns, filters, links, orders⟩ := childrenNamed_of_toChildren inside
      rw [Entity.ofElement_eq_ok_iff, columns, links, orders, Element.filter?_eq_head?, filters]
      refine ⟨requiredName_of_head first, ?_, ⟨entity.links, ?_, ?_⟩, ?_, ?_⟩
      · rw [List.forall₂_map_left_iff, List.forall₂_same]
        intro name _
        exact requiredName_of_head rfl
      · rw [List.forall₂_map_left_iff, List.forall₂_same]
        intro link present
        rw [Link.ofElement_eq_ok_iff]
        exact ⟨ih link present (below link present) rfl rfl, link.join_ofElement_toElement.symm⟩
      · exact (someUnlessEmpty_getD hlinked).symm
      · cases given : entity.filter with
        | none => rfl
        | some filter =>
            have nonempty : filter ≠ ⟨[]⟩ := by
              rintro rfl
              exact hfilter given
            exact (Filter.ofElement?_toElement nonempty).symm
      · have undone : Order.ofElement ∘ Order.toElement = id := funext Order.ofElement_toElement
        rw [List.map_map, undone, List.map_id]
        exact (someUnlessEmpty_getD horders).symm

end Entity

/-! ### The root -/

/-- A row limit within the bound is read as it was written. -/
theorem readRowLimit_decimal {limit : UInt32} (h : limit.toNat ≤ rowLimitBound) :
    readRowLimit (some (decimal limit.toNat)) = limit := by
  simp only [readRowLimit, trim_decimal, readUnsigned_decimal h]
  exact UInt32.ofNat_toNat

namespace Request

/-- A request that was written is stated by its root. -/
theorem ofElement_toElement {request : Request} (canonical : request.Canonical) :
    ofElement request.toElement = .ok request := by
  have top : request.toElement.attribute? "top" = some (decimal request.rowLimit.toNat) := by
    simp [toElement, Element.attribute?]
  have noLock : request.toElement.attribute? "no-lock" = some (flagText request.noLock) := by
    simp [toElement, Element.attribute?]
  rw [ofElement_eq_ok_iff, top, noLock, readRowLimit_decimal canonical.rowLimit, readFlag_flagText]
  refine ⟨by simp [toElement, Element.hasTag, sameLetters], ⟨request.entity.toElement, rfl,
    by simp [Entity.toElement, Element.hasTag, sameLetters], ?_⟩, rfl, rfl⟩
  exact Entity.ofElement_of_toChildren canonical.entity rfl rfl

end Request

/-! ### The document -/

/-- Every key that is looked up can be written. -/
theorem Role.isKey (role : Role) : ∀ key ∈ role.keys, IsKey key := by
  cases role <;> decide +kernel

/-- An element with keys of one role, each at most once, can be written. -/
theorem Xml.Element.WellNamed.of_role {name : Text} {attributes : List Attribute}
    {children : List Element} (role : Role)
    (used : (attributes.map Attribute.key).Sublist role.keys) (hname : IsName name)
    (below : ∀ child ∈ children, child.WellNamed) :
    Element.WellNamed ⟨name, attributes, children⟩ := by
  refine .mk hname ?_ (used.nodup role.keys_nodup) below
  intro pair present
  exact role.isKey pair.key (used.subset (List.mem_map_of_mem present))

theorem columnElement_wellNamed (name : Text) : (columnElement name).WellNamed :=
  .of_role .column (List.Sublist.refl _) (by decide +kernel) nofun

theorem Condition.toElement_wellNamed (condition : Condition) : condition.toElement.WellNamed :=
  .of_role .condition condition.toElement_keys_sublist (by decide +kernel) nofun

theorem Filter.toElement_wellNamed (filter : Filter) : filter.toElement.WellNamed := by
  apply Element.WellNamed.of_role .filter (List.Sublist.refl _) (by decide +kernel)
  intro child present
  obtain ⟨condition, -, rfl⟩ := List.mem_map.mp present
  exact condition.toElement_wellNamed

theorem Order.toElement_wellNamed (order : Order) : order.toElement.WellNamed :=
  .of_role .order order.toElement_keys_sublist (by decide +kernel) nofun

theorem Entity.toChildren_wellNamed (entity : Entity) :
    ∀ child ∈ entity.toChildren, child.WellNamed := by
  induction entity using Entity.induction with
  | step entity ih =>
      rw [toChildren_eq]
      simp only [List.forall_mem_append, List.forall_mem_map]
      refine ⟨?_, ?_, ?_, ?_⟩
      · intro name _
        exact columnElement_wellNamed name
      · intro filter _
        exact filter.toElement_wellNamed
      · intro link present
        exact .of_role .link link.toElement_keys_sublist (by decide +kernel) (ih link present)
      · intro order _
        exact order.toElement_wellNamed

namespace Request

theorem toElement_wellNamed (request : Request) : request.toElement.WellNamed := by
  apply Element.WellNamed.of_role .fetch (List.Sublist.refl _) (by decide +kernel)
  intro child present
  obtain rfl := List.mem_singleton.mp present
  exact .of_role .entity (List.Sublist.refl _) (by decide +kernel)
    request.entity.toChildren_wellNamed

/-- The document for a request states it, whatever its texts are. -/
theorem ofDocument_write {request : Request} (canonical : request.Canonical) :
    ofDocument request.write = .ok request :=
  ofDocument_eq_ok_iff.mpr ⟨_, Xml.ofDocument_write request.toElement_wellNamed,
    ofElement_toElement canonical⟩

example : write ⟨5, true, ⟨"a", ["<"], none, none, some [⟨none, false⟩]⟩⟩ =
    ("<fetch top=\"5\" no-lock=\"true\"><entity name=\"a\">" : Text) ++
      "<attribute name=\"&lt;\"></attribute><order descending=\"false\"></order>" ++
      "</entity></fetch>" := by
  decide +kernel

/-- Documents state exactly the canonical requests, and a request is canonical exactly when
the document for it states it. -/
theorem stated_iff_canonical (request : Request) :
    ((∃ document, ofDocument document = .ok request) ↔ request.Canonical) ∧
      (ofDocument request.write = .ok request ↔ request.Canonical) := by
  have read {document : Text} (h : ofDocument document = .ok request) : request.Canonical := by
    obtain ⟨root, -, stated⟩ := ofDocument_eq_ok_iff.mp h
    exact canonical_of_ofElement stated
  constructor
  · constructor
    · rintro ⟨document, h⟩
      exact read h
    · intro canonical
      exact ⟨request.write, ofDocument_write canonical⟩
  · exact ⟨read, ofDocument_write⟩

end Request

end FetchQuery
