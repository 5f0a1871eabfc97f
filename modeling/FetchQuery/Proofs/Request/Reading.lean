import FetchQuery.Proofs.Outcome
import FetchQuery.Request.Read

/-!
# What an element states

An element states an entity when it has a name, each of its attribute children has one,
and each of its link children states a link. The lemmas here say so over the children
with a tag, so that nothing else has to go through an element child by child.
-/

namespace FetchQuery

open Text Xml Outcome

theorem requiredName_eq_ok_iff {element : Element} {name : Text} :
    requiredName element = .ok name ↔ element.attribute? "name" = some name := by
  unfold requiredName
  cases element.attribute? "name" <;> simp

/-- The link that an element states. -/
def Link.ofElement (element : Element) : Except Fault Link := do
  let entity ← Entity.ofElement element
  return ⟨Join.ofElement element, entity⟩

theorem Link.ofChildren_eq (children : List Element) :
    Link.ofChildren children =
      (children.filter fun child => child.hasTag "link-entity").mapM Link.ofElement := by
  induction children with
  | nil => rfl
  | cons child children ih =>
      unfold Link.ofChildren
      split
      · next tagged =>
        rw [List.filter_cons, if_pos tagged, List.mapM_cons, ← ih, Link.ofElement]
        cases Entity.ofElement child <;> rfl
      · next other =>
        rw [List.filter_cons, if_neg other, ih]

/-- What an entity is made of: its own name, its columns, its links, then what cannot fail. -/
theorem Entity.ofElement_eq (element : Element) :
    Entity.ofElement element = do
      let name ← requiredName element
      let attributes ← (element.childrenNamed "attribute").mapM requiredName
      let links ← (element.childrenNamed "link-entity").mapM Link.ofElement
      return {
        name
        attributes
        filter := element.filter?.bind Filter.ofElement?
        linked := someUnlessEmpty links
        orders := someUnlessEmpty ((element.childrenNamed "order").map Order.ofElement) } := by
  obtain ⟨name, attributes, children⟩ := element
  rw [Entity.ofElement, Link.ofChildren_eq]
  rfl

/-- An element states an entity exactly when the names are there and the links are links. -/
theorem Entity.ofElement_eq_ok_iff {element : Element} {entity : Entity} :
    Entity.ofElement element = .ok entity ↔
      requiredName element = .ok entity.name ∧
      List.Forall₂ (fun child name => requiredName child = .ok name)
        (element.childrenNamed "attribute") entity.attributes ∧
      (∃ links, List.Forall₂ (fun child link => Link.ofElement child = .ok link)
        (element.childrenNamed "link-entity") links ∧ entity.linked = someUnlessEmpty links) ∧
      entity.filter = element.filter?.bind Filter.ofElement? ∧
      entity.orders = someUnlessEmpty ((element.childrenNamed "order").map Order.ofElement) := by
  obtain ⟨name, attributes, filter, linked, orders⟩ := entity
  rw [Entity.ofElement_eq]
  simp only [bind_eq_ok_iff, mapM_eq_ok_iff, pure, Except.pure, Except.ok.injEq, Entity.mk.injEq]
  constructor
  · rintro ⟨_, hname, _, hattributes, links, hlinks, rfl, rfl, rfl, rfl, rfl⟩
    exact ⟨hname, hattributes, ⟨links, hlinks, rfl⟩, rfl, rfl⟩
  · rintro ⟨hname, hattributes, ⟨links, hlinks, rfl⟩, rfl, rfl⟩
    exact ⟨_, hname, _, hattributes, links, hlinks, rfl, rfl, rfl, rfl, rfl⟩

theorem Link.ofElement_eq_ok_iff {element : Element} {link : Link} :
    Link.ofElement element = .ok link ↔
      Entity.ofElement element = .ok link.entity ∧ link.join = Join.ofElement element := by
  obtain ⟨join, entity⟩ := link
  simp only [Link.ofElement, bind_eq_ok_iff, pure, Except.pure, Except.ok.injEq, Link.mk.injEq]
  constructor
  · rintro ⟨_, hentity, rfl, rfl⟩
    exact ⟨hentity, rfl⟩
  · rintro ⟨hentity, rfl⟩
    exact ⟨_, hentity, rfl, rfl⟩

/-- A root states a request when it is a `fetch` and its first child states an entity. -/
theorem Request.ofElement_eq_ok_iff {root : Element} {request : Request} :
    Request.ofElement root = .ok request ↔
      root.hasTag "fetch" = true ∧
      (∃ first ∈ root.children.head?, first.hasTag "entity" = true ∧
        Entity.ofElement first = .ok request.entity) ∧
      request.rowLimit = readRowLimit (root.attribute? "top") ∧
      request.noLock = readFlag (root.attribute? "no-lock") := by
  obtain ⟨rowLimit, noLock, entity⟩ := request
  unfold Request.ofElement
  split
  · next tagged =>
    split
    · next empty => simp [empty]
    · next first rest whole =>
      simp only [whole, List.head?_cons, Option.mem_some_iff, exists_eq_left', tagged, true_and]
      split
      · next isEntity =>
        simp only [isEntity, bind_eq_ok_iff, pure, Except.pure, Except.ok.injEq,
          Request.mk.injEq, true_and]
        constructor
        · rintro ⟨_, hentity, rfl, rfl, rfl⟩
          exact ⟨hentity, rfl, rfl⟩
        · rintro ⟨hentity, rfl, rfl⟩
          exact ⟨_, hentity, rfl, rfl, rfl⟩
      · next other =>
        constructor
        · intro h
          cases h
        · intro h
          exact absurd h.1.1 other
  · next other =>
    constructor
    · intro h
      cases h
    · intro h
      exact absurd h.1 other

end FetchQuery
