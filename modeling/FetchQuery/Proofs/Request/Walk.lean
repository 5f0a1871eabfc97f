import FetchQuery.Proofs.Request.Canonical
import FetchQuery.Proofs.Request.Document
import FetchQuery.Proofs.Xml.StartTag

/-!
# The entities of a document

A walk of the request that a document states goes through the text: it lists the entity in the root
and the links that stand in it through links alone, in the order of their start tags, and each one
is as its element states (`Request.walk_of_startTags`). The elements are told from others by their
addresses (`isListed`), so links in filters and in other elements are seen not to be listed.
-/

namespace FetchQuery

open Text Xml Outcome

/-- The addresses of the elements that a walk lists: the entity that is the first element in the
root, and each link that stands directly in a listed element. -/
def isListed : Address → Bool
  | [first, _root] => first.earlier == 0 && sameLetters first.name "entity"
  | standing :: around => sameLetters standing.name "link-entity" && isListed around
  | [] => false

/-- What a start tag says of an entity, with what the other tags say is directly in its element. -/
structure States (tags : List StartTag) (tag : StartTag) (entity : Entity) : Prop where
  name : (tag.attributes.find? fun pair => pair.key == ("name" : Text)).map Attribute.value =
    some entity.name
  attributes : entity.attributes.length =
    tags.countP fun inner => isDirectlyIn tag.address "attribute" inner.address
  links : entity.links.length =
    tags.countP fun inner => isDirectlyIn tag.address "link-entity" inner.address

/-! ### Listed addresses -/

theorem length_of_isListed {address : Address} (h : isListed address = true) :
    2 ≤ address.length := by
  match address with
  | [standing] => simp [isListed] at h
  | _ :: _ :: _ => simp

theorem isListed_cons {around : Address} (nested : 2 ≤ around.length) (standing : Standing) :
    isListed (standing :: around) =
      (sameLetters standing.name "link-entity" && isListed around) := by
  match around with
  | _ :: _ :: _ => rfl

/-- What is around a listed element is listed, from the entity on. -/
theorem isListed_of_suffix {around address : Address} (h : isListed address = true)
    (inside : around <:+ address) (nested : 2 ≤ around.length) : isListed around = true := by
  induction address with
  | nil => exact nomatch h
  | cons standing outer ih =>
      rcases List.suffix_cons_iff.mp inside with rfl | inside
      · exact h
      · rw [isListed_cons (Nat.le_trans nested inside.length_le), Bool.and_eq_true] at h
        exact ih h.2 inside

/-- Where no element is listed, nothing in one is. -/
theorem filter_starts_eq_nil {around : Address} {earlier : Nat} (nonempty : around ≠ [])
    (unlisted : ∀ standing : Standing, earlier ≤ standing.earlier →
      isListed (standing :: around) = false) (elements : List Element) :
    (starts around earlier elements).filter (fun start => isListed start.1) = [] := by
  rw [List.filter_eq_nil_iff]
  intro start present listed
  obtain ⟨standing, inside, behind⟩ := exists_suffix_of_mem_starts present
  have nested : 2 ≤ (standing :: around).length :=
    Nat.succ_le_succ (List.length_pos_iff.mpr nonempty)
  exact Bool.false_ne_true
    ((unlisted standing behind).symm.trans (isListed_of_suffix listed inside nested))

/-! ### Walks of trees -/

/-- An entity with the name of an element, as many columns as there are in the element, and as many
links. -/
structure Entity.StatedBy (start : Address × Element) (entity : Entity) : Prop where
  name : start.2.attribute? "name" = some entity.name
  attributes : entity.attributes.length = (start.2.childrenNamed "attribute").length
  links : entity.links.length = (start.2.childrenNamed "link-entity").length

/-- A walk begins with the element itself, and goes on with what is listed below it. -/
theorem Entity.forall₂_walk_cons {address : Address} (listed : isListed address = true)
    {element : Element} {entity : Entity} (h : Entity.ofElement element = .ok entity)
    {below : List (Address × Element)}
    (hbelow : ∀ links,
      List.Forall₂ (fun child link => Link.ofElement child = .ok link)
        (element.childrenNamed "link-entity") links →
      List.Forall₂ Entity.StatedBy
        (below.filter fun start => isListed start.1)
        (links.flatMap fun link => link.entity.walk)) :
    List.Forall₂ Entity.StatedBy
      (((address, element) :: below).filter fun start => isListed start.1) entity.walk := by
  obtain ⟨name, attributes, -⟩ := Entity.ofElement_eq_ok_iff.mp h
  have links := Entity.forall₂_links h
  rw [List.filter_cons, if_pos listed, Entity.walk_eq]
  refine .cons ?_ (hbelow entity.links links)
  exact ⟨requiredName_eq_ok_iff.mp name, attributes.length_eq.symm, links.length_eq.symm⟩

/-- In a listed element are listed its links and what is listed in them. -/
theorem forall₂_walk_starts {around : Address} (listed : isListed around = true) {earlier : Nat}
    {elements : List Element} {links : List Link}
    (h : List.Forall₂ (fun child link => Link.ofElement child = .ok link)
      (elements.filter fun child => child.hasTag "link-entity") links) :
    List.Forall₂ Entity.StatedBy
      ((starts around earlier elements).filter fun start => isListed start.1)
      (links.flatMap fun link => link.entity.walk) := by
  induction around, earlier, elements using starts.induct generalizing links with
  | case1 around earlier =>
      cases h
      rw [starts]
      exact .nil
  | case2 around earlier name attributes children elements ihInner ihLater =>
      have own := isListed_cons (length_of_isListed listed) ⟨earlier, name⟩
      rw [listed, Bool.and_true] at own
      rw [starts, ← List.cons_append, List.filter_append]
      rw [List.filter_cons] at h
      split at h
      · next tagged =>
        obtain ⟨link, links, hlink, hlinks, rfl⟩ := List.forall₂_cons_left_iff.mp h
        have hentity := (Link.ofElement_eq_ok_iff.mp hlink).1
        have inner := own.trans tagged
        rw [List.flatMap_cons]
        apply List.rel_append _ (ihLater listed hlinks)
        exact Entity.forall₂_walk_cons inner hentity fun _ => ihInner inner
      · next other =>
        have unlisted := own.trans (Bool.eq_false_of_not_eq_true other)
        have inner : (starts (⟨earlier, name⟩ :: around) 0 children).filter
            (fun start => isListed start.1) = [] := by
          apply filter_starts_eq_nil (List.cons_ne_nil _ _)
          intro standing _
          have nested : 2 ≤ (⟨earlier, name⟩ :: around : Address).length :=
            Nat.le_succ_of_le (length_of_isListed listed)
          rw [isListed_cons nested, unlisted, Bool.and_false]
        rw [List.filter_cons_of_neg (by simp [unlisted]), inner]
        exact ihLater listed h

/-- A walk of the request that a root states is what is listed in the root. -/
theorem Request.forall₂_walk_of_ofElement {root : Element} {request : Request}
    (h : Request.ofElement root = .ok request) :
    List.Forall₂ Entity.StatedBy
      ((starts [] 0 [root]).filter fun start => isListed start.1) request.entity.walk := by
  obtain ⟨-, ⟨first, present, isEntity, hentity⟩, -, -⟩ := Request.ofElement_eq_ok_iff.mp h
  obtain ⟨rest, children⟩ := List.head?_eq_some_iff.mp present
  obtain ⟨name, attributes, _⟩ := root
  obtain ⟨tag, keys, inner⟩ := first
  cases children
  have listed : isListed [⟨0, tag⟩, ⟨0, name⟩] = true := isEntity
  have others : (starts [⟨0, name⟩] 1 rest).filter (fun start => isListed start.1) = [] := by
    apply filter_starts_eq_nil (List.cons_ne_nil _ _)
    intro standing behind
    simp [isListed, Nat.ne_of_gt behind]
  simp only [starts, List.append_nil]
  rw [List.filter_cons_of_neg (by simp [isListed]), ← List.cons_append, List.filter_append, others,
    List.append_nil]
  exact Entity.forall₂_walk_cons listed hentity fun _ => forall₂_walk_starts listed

/-! ### Walks of documents -/

/-- Start tags that stand as elements do pass a test on addresses where the elements do. -/
theorem forall₂_filter_starts {tags : List StartTag} {elements : List (Address × Element)}
    (h : List.Forall₂ StartTag.Starts tags elements) (test : Address → Bool) :
    List.Forall₂ StartTag.Starts (tags.filter fun tag => test tag.address)
      (elements.filter fun start => test start.1) := by
  apply List.rel_filter _ h
  intro tag start starting
  simp only [starting.address]

/-- The start tags of a document say what the elements of the tree are. -/
theorem States.of_statedBy {input : Text} {tree : Element} (h : Element.ofDocument input = .ok tree)
    {tag : StartTag} {start : Address × Element} {entity : Entity} (starting : tag.Starts start)
    (present : start ∈ starts [] 0 [tree]) (stated : Entity.StatedBy start entity) :
    States (startTags (withoutByteOrderMark input)) tag entity := by
  have direct (name : Text) : (startTags (withoutByteOrderMark input)).countP
      (fun inner => isDirectlyIn tag.address name inner.address) =
        (start.2.childrenNamed name).length := by
    rw [← countP_starts_of_mem present, starting.address, List.countP_eq_length_filter,
      List.countP_eq_length_filter]
    exact (forall₂_filter_starts (forall₂_startTags h) (isDirectlyIn start.1 name)).length_eq
  constructor
  · rw [starting.attributes]
    exact stated.name
  · rw [direct, stated.attributes]
  · rw [direct, stated.links]

/-- A walk of the request that a document states goes through the listed start tags of the document,
in their order in the text, and each of them states its entity. -/
theorem Request.walk_of_startTags {input : Text} {request : Request}
    (h : Request.ofDocument input = .ok request) :
    let document := withoutByteOrderMark input
    let tags := startTags document
    (tags.Pairwise fun first later =>
      offset document first.place < offset document later.place) ∧
    List.Forall₂ (States tags) (tags.filter fun tag => isListed tag.address)
      request.entity.walk := by
  intro document tags
  obtain ⟨root, hroot, hrequest⟩ := Request.ofDocument_eq_ok_iff.mp h
  refine ⟨pairwise_startTags document, ?_⟩
  apply forall₂_comp (forall₂_filter_starts (forall₂_startTags hroot) isListed)
    (Request.forall₂_walk_of_ofElement hrequest)
  intro tag start present entity starting stated
  exact States.of_statedBy hroot starting (List.mem_of_mem_filter present) stated

/-- Links behind other elements are listed and links in other elements are not. -/
theorem Request.walk_of_startTags_interleaved :
    let input : Text := "\uFEFF<fetch><Entity name='a'><link-entity name='b'>" ++
      (("<filter><link-entity name='f'/></filter><LINK-entity name='é'><attribute name='x'/>" :
        Text) ++ (("</LINK-entity></link-entity><attribute name='p'><link-entity/></attribute>" :
        Text) ++ "<link-entity name='d'/></Entity><entity><link-entity/></entity></fetch>"))
    let inner : Entity := ⟨"é", ["x"], none, none, none⟩
    let first : Entity := ⟨"b", [], some ⟨[⟨none, none, none⟩]⟩, some [⟨⟨none, none⟩, inner⟩], none⟩
    let last : Entity := ⟨"d", [], none, none, none⟩
    let links : List Link := [⟨⟨none, none⟩, first⟩, ⟨⟨none, none⟩, last⟩]
    let request : Request := ⟨0, false, ⟨"a", ["p"], none, some links, none⟩⟩
    let document := withoutByteOrderMark input
    let tags := startTags document
    Request.ofDocument input = .ok request ∧
      request.entity.walk = [request.entity, first, inner, last] ∧
      ((tags.filter fun tag => isListed tag.address).map fun tag => offset document tag.place) =
        [7, 24, 86, 204] ∧
      (tags.Pairwise fun first later =>
        offset document first.place < offset document later.place) ∧
      List.Forall₂ (States tags) (tags.filter fun tag => isListed tag.address)
        request.entity.walk := by
  intro input inner first last links request document tags
  have stated : Request.ofDocument input = .ok request := by decide +kernel
  exact ⟨stated, rfl, by decide +kernel, Request.walk_of_startTags stated⟩

end FetchQuery
