import FetchQuery.Proofs.Request.Document
import FetchQuery.Proofs.Xml.Element

/-!
# Missing names

Names are asked for in an order that is not the order of the document: an element before what is in
it, its attributes before its links, a link with all that is below it before the next link. The
first element in this order without a name is reported, and nothing else is wrong with a document
that has an entity as the first element in its root (`Request.ofDocument_of_asked`).
-/

namespace FetchQuery

open Text Xml Outcome

namespace Xml

namespace Element

/-- An element that gives its name. -/
def HasName (element : Element) : Prop :=
  ∃ pair ∈ element.attributes, pair.key = "name"

mutual

/-- The elements that are asked for their names, in order: the element itself, the attributes in it,
and then the links in it, each with all that is asked for below it. -/
def asked : Element → List Element
  | ⟨name, attributes, children⟩ =>
      ⟨name, attributes, children⟩ ::
        ((children.filter fun child => child.hasTag "attribute") ++ askedBelow children)

/-- What is asked for in the links among some elements. -/
def askedBelow : List Element → List Element
  | [] => []
  | child :: rest =>
      if child.hasTag "link-entity" then child.asked ++ askedBelow rest else askedBelow rest

end

theorem askedBelow_eq (children : List Element) :
    askedBelow children =
      (children.filter fun child => child.hasTag "link-entity").flatMap asked := by
  induction children with
  | nil => rfl
  | cons child rest ih =>
      rw [askedBelow, List.filter_cons]
      split
      · rw [List.flatMap_cons, ih]
      · exact ih

theorem asked_eq (element : Element) :
    element.asked = element :: (element.childrenNamed "attribute" ++
      (element.childrenNamed "link-entity").flatMap asked) := by
  obtain ⟨name, attributes, children⟩ := element
  rw [asked, askedBelow_eq]
  rfl

end Element

end Xml

/-! ### The first fault -/

/-- Only an element without the key has no value under it. -/
theorem attribute?_name_eq_none_iff {element : Element} :
    element.attribute? "name" = none ↔ ¬ element.HasName := by
  rw [Element.attribute?, Option.map_eq_none_iff, List.find?_eq_none]
  simp [Element.HasName]

theorem requiredName_eq_error_iff {element : Element} {fault : Fault} :
    requiredName element = .error fault ↔
      ¬ element.HasName ∧ fault = .missing element.name "name" := by
  rw [← attribute?_name_eq_none_iff]
  unfold requiredName
  cases element.attribute? "name" with
  | none => simp [eq_comm]
  | some name => simp

theorem fault?_requiredName_eq_none_iff {element : Element} :
    fault? (requiredName element) = none ↔ element.HasName := by
  rw [fault?_eq_none_iff, ← not_iff_not, ← attribute?_name_eq_none_iff,
    Option.eq_none_iff_forall_ne_some, not_exists]
  exact forall_congr' fun name => not_congr requiredName_eq_ok_iff

/-- A first value is found part by part. -/
theorem findSome?_eq_flatMap {α β γ : Type} {parts : α → List β} {test : β → Option γ}
    {value : α → Option γ} {items : List α}
    (same : ∀ item ∈ items, value item = (parts item).findSome? test) :
    items.findSome? value = (items.flatMap parts).findSome? test := by
  induction items with
  | nil => rfl
  | cons item items ih =>
      rw [List.forall_mem_cons] at same
      rw [List.findSome?_cons, List.flatMap_cons, List.findSome?_append, same.1, ih same.2]
      cases (parts item).findSome? test with
      | none => rfl
      | some value => rfl

/-- An element states an entity unless a name that is asked for is missing. -/
theorem Entity.fault?_ofElement (element : Element) :
    fault? (Entity.ofElement element) =
      element.asked.findSome? fun node => fault? (requiredName node) := by
  induction element using Element.induction with
  | step element ih =>
      have links : fault? ((element.childrenNamed "link-entity").mapM Link.ofElement) =
          ((element.childrenNamed "link-entity").flatMap Element.asked).findSome? fun node =>
            fault? (requiredName node) := by
        rw [fault?_mapM]
        apply findSome?_eq_flatMap
        intro child present
        rw [Link.ofElement, fault?_bind_pure]
        exact ih child (List.mem_of_mem_filter present)
      rw [Entity.ofElement_eq, fault?_bind fun name => fault?_bind fun columns => fault?_bind_pure,
        fault?_mapM, links, Element.asked_eq, List.findSome?_cons, List.findSome?_append]
      cases fault? (requiredName element) with
      | none => rfl
      | some fault => rfl

namespace Request

/-- A root with an entity as its first element fails only where the entity does. -/
theorem fault?_ofElement {root entity : Element} (isFetch : root.hasTag "fetch" = true)
    (first : root.children.head? = some entity) (isEntity : entity.hasTag "entity" = true) :
    fault? (ofElement root) = fault? (Entity.ofElement entity) := by
  obtain ⟨rest, children⟩ := List.head?_eq_some_iff.mp first
  simp only [ofElement, isFetch, children, isEntity, if_true]
  exact fault?_bind_pure

/-- A document with an entity as the first element in its root is a request if every element that is
asked for its name has one. Otherwise the first one that has none is reported, by its tag. -/
theorem ofDocument_of_asked {document : Text} {root entity : Element}
    (read : Element.ofDocument document = .ok root) (isFetch : root.hasTag "fetch" = true)
    (first : root.children.head? = some entity) (isEntity : entity.hasTag "entity" = true) :
    ((∃ request, ofDocument document = .ok request) ↔ ∀ node ∈ entity.asked, node.HasName) ∧
    ∀ fault, ofDocument document = .error fault ↔
      ∃ before node after, entity.asked = before ++ node :: after ∧
        (∀ earlier ∈ before, earlier.HasName) ∧ ¬ node.HasName ∧
        fault = .missing node.name "name" := by
  have whole : fault? (ofDocument document) =
      entity.asked.findSome? fun node => fault? (requiredName node) := by
    rw [ofDocument_of_ok read, fault?_ofElement isFetch first isEntity, Entity.fault?_ofElement]
  constructor
  · rw [← fault?_eq_none_iff, whole, List.findSome?_eq_none_iff]
    simp only [fault?_requiredName_eq_none_iff]
  · intro fault
    rw [← fault?_eq_some_iff, whole, List.findSome?_eq_some_iff]
    simp only [fault?_requiredName_eq_none_iff, fault?_eq_some_iff, requiredName_eq_error_iff]
    constructor
    · rintro ⟨before, node, after, split, ⟨unnamed, same⟩, named⟩
      exact ⟨before, node, after, split, named, unnamed, same⟩
    · rintro ⟨before, node, after, split, named, unnamed, same⟩
      exact ⟨before, node, after, split, ⟨unnamed, same⟩, named⟩

/-- A column of the first link is asked for its name before the link that stands in front of it, and
behind the column of the entity. What is in a filter is not asked. -/
theorem ofDocument_of_asked_link :
    let document : Text := "<FETCH><Entity name='a'><filter><attribute/></filter>" ++
      (("<link-entity name='b'><link-Entity/><Attribute Name='x'/></link-entity>" : Text) ++
        "<attribute name=''/><link-entity/></Entity></FETCH>")
    let column : Element := ⟨"Attribute", [⟨"Name", "x"⟩], []⟩
    let inner : Element := ⟨"link-Entity", [], []⟩
    let link : Element := ⟨"link-entity", [⟨"name", "b"⟩], [inner, column]⟩
    let filter : Element := ⟨"filter", [], [⟨"attribute", [], []⟩]⟩
    let first : Element := ⟨"attribute", [⟨"name", ""⟩], []⟩
    let last : Element := ⟨"link-entity", [], []⟩
    let entity : Element := ⟨"Entity", [⟨"name", "a"⟩], [filter, link, first, last]⟩
    let root : Element := ⟨"FETCH", [], [entity]⟩
    Element.ofDocument document = .ok root ∧ root.hasTag "fetch" = true ∧
      root.children.head? = some entity ∧ entity.hasTag "entity" = true ∧
      entity.asked = [entity, first, link, column, inner, last] ∧
      ofDocument document = .error (.missing "Attribute" "name") := by
  intro document column inner link filter first last entity root
  have read : Element.ofDocument document = .ok root := by decide +kernel
  have isFetch : root.hasTag "fetch" = true := by decide +kernel
  have isEntity : entity.hasTag "entity" = true := by decide +kernel
  have asked : entity.asked = [entity, first, link, column, inner, last] := by decide +kernel
  refine ⟨read, isFetch, rfl, isEntity, asked, ?_⟩
  rw [(ofDocument_of_asked read isFetch rfl isEntity).2]
  refine ⟨[entity, first, link], column, [inner, last], asked, ?_, ?_, rfl⟩
  · simp [Element.HasName, entity, first, link]
  · simp [Element.HasName, column]

end Request

end FetchQuery
