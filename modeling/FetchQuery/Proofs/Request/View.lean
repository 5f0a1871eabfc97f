import Mathlib.Data.Multiset.Basic
import FetchQuery.Proofs.Request.Reading
import FetchQuery.Proofs.Request.Role
import FetchQuery.Proofs.Xml.DistinctKeys
import FetchQuery.Proofs.Xml.Element

/-!
# What is read of an element

An element is read in a role, which decides the keys that are looked up in it and the
children that are read, each in a role of its own. Its view is all that, with the
attributes in no order and the children sorted by role. Where no key is there twice,
elements with the same view in a role are read alike (`Entity.ofElement_eq_of_alike`).
-/

namespace FetchQuery

open Text Xml Outcome

namespace Role

/-- The name of an element, as far as it matters. Conditions may have any name. -/
def shownName (role : Role) (element : Element) : Text :=
  if role = condition then [] else element.name

/-- The attributes of an element with a key that is looked up. -/
def shownAttributes (role : Role) (element : Element) : List Attribute :=
  element.attributes.filter fun pair => decide (pair.key ∈ role.keys)

end Role

/-- All that is read of an element. -/
inductive View where
  | mk (name : Text) (attributes : Multiset Attribute) (parts : Role → List View)

/-- What is read of an element in a role. -/
def Role.view (role : Role) (element : Element) : View :=
  ⟨role.shownName element, role.shownAttributes element,
    fun part => (role.parts part element.children).attach.map fun child => part.view child.1⟩
termination_by element
decreasing_by
  have below := List.sizeOf_lt_of_mem (Role.mem_of_mem_parts child.2)
  obtain ⟨name, attributes, children⟩ := element
  simp only [Element.mk.sizeOf_spec] at below ⊢
  omega

/-- Two elements without repeated keys that have the same view in a role. -/
structure Alike (role : Role) (first second : Element) : Prop where
  view : role.view first = role.view second
  keys : first.DistinctKeys
  keys' : second.DistinctKeys

namespace Role

variable {role part : Role} {first second : Element}

theorem view_eq_iff : role.view first = role.view second ↔
    role.shownName first = role.shownName second ∧
    (role.shownAttributes first).Perm (role.shownAttributes second) ∧
    ∀ part, (role.parts part first.children).map part.view =
      (role.parts part second.children).map part.view := by
  rw [view, view]
  simp only [View.mk.injEq, Multiset.coe_eq_coe, funext_iff, List.attach_map_val]

/-- Only through the children that are read does a view depend on the children. -/
theorem view_eq_of_parts {name : Text} {attributes : List Attribute}
    {children children' : List Element}
    (h : ∀ part, (role.parts part children).map part.view =
      (role.parts part children').map part.view) :
    role.view ⟨name, attributes, children⟩ = role.view ⟨name, attributes, children'⟩ :=
  view_eq_iff.mpr ⟨rfl, List.Perm.refl _, h⟩

end Role

namespace Alike

variable {role part : Role} {first second : Element}

theorem name_eq (h : Alike role first second) (named : role ≠ .condition) :
    first.name = second.name := by
  have shown := (Role.view_eq_iff.mp h.view).1
  simpa only [Role.shownName, if_neg named] using shown

theorem attribute?_eq (h : Alike role first second) {key : Text} (read : key ∈ role.keys) :
    first.attribute? key = second.attribute? key := by
  have shown := (Role.view_eq_iff.mp h.view).2.1
  apply Element.attribute?_eq_of_mem_iff h.keys.nodup
  intro text
  rw [Element.attribute?_eq_some_iff h.keys'.nodup]
  have present := shown.mem_iff (a := ⟨key, text⟩)
  simpa only [Role.shownAttributes, List.mem_filter, read, decide_true, and_true] using present

/-- The children of elements that are alike are alike one by one. -/
theorem parts (h : Alike role first second) (part : Role) :
    List.Forall₂ (Alike part) (role.parts part first.children)
      (role.parts part second.children) := by
  have views := (Role.view_eq_iff.mp h.view).2.2 part
  rw [← List.forall₂_eq_eq_eq, List.forall₂_map_left_iff, List.forall₂_map_right_iff] at views
  have keys : ∀ child ∈ role.parts part first.children, child.DistinctKeys :=
    fun child present => h.keys.of_mem (Role.mem_of_mem_parts present)
  have keys' : ∀ child ∈ role.parts part second.children, child.DistinctKeys :=
    fun child present => h.keys'.of_mem (Role.mem_of_mem_parts present)
  have known := (List.forall₂_and_left _ _).mpr ⟨keys, views⟩
  have known' := (List.forall₂_and_left _ _).mpr ⟨keys', known.flip⟩
  exact known'.flip.imp fun _ _ ⟨later, own, same⟩ => ⟨same, own, later⟩

end Alike

/-! ### Elements that are alike are read alike -/

section

variable {role : Role} {first second : Element}

theorem requiredName_eq_of_alike (h : Alike role first second) (named : role ≠ .condition)
    (read : ("name" : Text) ∈ role.keys) : requiredName first = requiredName second := by
  rw [requiredName, requiredName, h.attribute?_eq read, h.name_eq named]

theorem Condition.ofElement_eq_of_alike (h : Alike .condition first second) :
    Condition.ofElement first = Condition.ofElement second := by
  simp only [Condition.ofElement, mk.injEq]
  refine ⟨?_, ?_, ?_⟩ <;> apply h.attribute?_eq <;> simp [Role.keys]

theorem Filter.ofElement?_eq_of_alike (h : Alike .filter first second) :
    Filter.ofElement? first = Filter.ofElement? second := by
  obtain ⟨name, attributes, children⟩ := first
  obtain ⟨name', attributes', children'⟩ := second
  have conditions : List.Forall₂ (Alike .condition) children children' :=
    h.parts .condition
  have same := map_eq_map_of_forall₂ conditions fun _ _ => Condition.ofElement_eq_of_alike
  unfold Filter.ofElement?
  cases conditions with
  | nil => rfl
  | cons _ _ => exact congrArg (fun conditions => some (Filter.mk conditions)) same

theorem Order.ofElement_eq_of_alike (h : Alike .order first second) :
    Order.ofElement first = Order.ofElement second := by
  rw [Order.ofElement, Order.ofElement, h.attribute?_eq (by simp [Role.keys]),
    h.attribute?_eq (by simp [Role.keys])]

theorem Join.ofElement_eq_of_alike (h : Alike .link first second) :
    Join.ofElement first = Join.ofElement second := by
  rw [Join.ofElement, Join.ofElement, h.attribute?_eq (by simp [Role.keys]),
    h.attribute?_eq (by simp [Role.keys])]

/-- The links are alike again, so the entity is found by induction on the element. The roles
of an entity and of a link differ only in the keys of the join. -/
theorem Entity.ofElement_eq_of_alike (h : Alike role first second) (source : role.IsSource) :
    Entity.ofElement first = Entity.ofElement second := by
  induction first using Element.induction generalizing role second with
  | step first ih =>
      have name : requiredName first = requiredName second := by
        cases source <;> exact requiredName_eq_of_alike h (by decide) (by simp [Role.keys])
      have columns : List.Forall₂ (Alike .column) (first.childrenNamed "attribute")
          (second.childrenNamed "attribute") := by
        cases source <;> exact h.parts .column
      have links : List.Forall₂ (Alike .link) (first.childrenNamed "link-entity")
          (second.childrenNamed "link-entity") := by
        cases source <;> exact h.parts .link
      have orders : List.Forall₂ (Alike .order) (first.childrenNamed "order")
          (second.childrenNamed "order") := by
        cases source <;> exact h.parts .order
      have filters : List.Forall₂ (Alike .filter) first.filter?.toList second.filter?.toList := by
        rw [Element.filter?_eq_head?, Element.filter?_eq_head?, ← List.take_one, ← List.take_one]
        cases source <;> exact h.parts .filter
      have sameColumns := mapM_eq_mapM_of_forall₂ (f := requiredName) columns fun _ _ alike =>
        requiredName_eq_of_alike alike (by decide) (by simp [Role.keys])
      have sameLinks : (first.childrenNamed "link-entity").mapM Link.ofElement =
          (second.childrenNamed "link-entity").mapM Link.ofElement := by
        have present : ∀ child ∈ first.childrenNamed "link-entity", child ∈ first.children :=
          fun _ => List.mem_of_mem_filter
        apply mapM_eq_mapM_of_forall₂ ((List.forall₂_and_left _ _).mpr ⟨present, links⟩)
        rintro child child' ⟨inside, alike⟩
        rw [Link.ofElement, Link.ofElement, ih child inside alike .link,
          Join.ofElement_eq_of_alike alike]
      have sameOrders := map_eq_map_of_forall₂ orders fun _ _ => Order.ofElement_eq_of_alike
      have sameFilter : first.filter?.bind Filter.ofElement? =
          second.filter?.bind Filter.ofElement? := by
        have same := map_eq_map_of_forall₂ filters fun _ _ => Filter.ofElement?_eq_of_alike
        cases found : first.filter? <;> cases found' : second.filter? <;> simp_all
      rw [Entity.ofElement_eq, Entity.ofElement_eq, name, sameColumns, sameLinks, sameOrders,
        sameFilter]

end

/-- Roots that are alike state the same request, or fail in the same way. -/
theorem Request.ofElement_eq_of_alike {first second : Element} (h : Alike .fetch first second) :
    Request.ofElement first = Request.ofElement second := by
  have top : first.attribute? "top" = second.attribute? "top" :=
    h.attribute?_eq (by simp [Role.keys])
  have noLock : first.attribute? "no-lock" = second.attribute? "no-lock" :=
    h.attribute?_eq (by simp [Role.keys])
  have entities : List.Forall₂ (Alike .entity) (first.children.take 1) (second.children.take 1) :=
    h.parts .entity
  unfold Request.ofElement Element.hasTag
  rw [h.name_eq (by decide), top, noLock]
  cases children : first.children with
  | nil =>
      cases children' : second.children with
      | nil => rfl
      | cons child' rest' => simp [children, children'] at entities
  | cons child rest =>
      cases children' : second.children with
      | nil => simp [children, children'] at entities
      | cons child' rest' =>
          have alike : Alike .entity child child' := by
            simpa [children, children'] using entities
          simp only [alike.name_eq (by decide), Entity.ofElement_eq_of_alike alike .entity]

end FetchQuery
