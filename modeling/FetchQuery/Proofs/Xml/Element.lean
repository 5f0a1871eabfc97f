import Mathlib.Data.List.Nodup
import FetchQuery.Xml.Element

/-!
# What is in an element

Trees are proved things about by induction on the elements inside elements. Where no key
is twice in an element, looking up a key finds the one attribute that has it, wherever it
stands. Children are looked up by tag, and children of one name are all found or none.
-/

namespace FetchQuery

namespace Xml

open Text

namespace Element

/-- What passes from the children of every element to the element holds of every tree. -/
@[elab_as_elim]
theorem induction {motive : Element → Prop}
    (step : ∀ element, (∀ child ∈ element.children, motive child) → motive element) :
    ∀ element, motive element
  | ⟨name, attributes, children⟩ => step _ fun child _ => induction step child

/-- Looking up a key that is not there twice finds the attribute with the key. -/
theorem attribute?_eq_some_iff {element : Element} {key value : Text}
    (distinct : (element.attributes.map Attribute.key).Nodup) :
    element.attribute? key = some value ↔ ⟨key, value⟩ ∈ element.attributes := by
  obtain ⟨name, attributes, children⟩ := element
  simp only [attribute?, Option.map_eq_some_iff] at distinct ⊢
  constructor
  · rintro ⟨⟨key', value'⟩, found, rfl⟩
    obtain rfl := by simpa using List.find?_some found
    exact List.mem_of_find?_eq_some found
  · intro present
    induction attributes with
    | nil => exact nomatch present
    | cons pair attributes ih =>
        rw [List.map_cons, List.nodup_cons] at distinct
        rcases List.mem_cons.mp present with rfl | present
        · exact ⟨⟨key, value⟩, by simp, rfl⟩
        · have other : pair.key ≠ key := by
            rintro rfl
            exact distinct.1 (List.mem_map.mpr ⟨_, present, rfl⟩)
          obtain ⟨found, hfound, same⟩ := ih distinct.2 present
          exact ⟨found, by simpa [other] using hfound, same⟩

/-- What is found under a key is known from the attributes with the key. -/
theorem attribute?_eq_of_mem_iff {element : Element} {key : Text} {value : Option Text}
    (distinct : (element.attributes.map Attribute.key).Nodup)
    (present : ∀ text, ⟨key, text⟩ ∈ element.attributes ↔ value = some text) :
    element.attribute? key = value := by
  ext text
  rw [attribute?_eq_some_iff distinct, present]

/-- The first filter is the first of the filters. -/
theorem filter?_eq_head? (element : Element) :
    element.filter? = (element.childrenNamed "filter").head? :=
  List.head?_filter.symm

end Element

/-- Among elements that are made with one name, those with a tag are all or none. -/
theorem filter_hasTag {α : Type} (make : α → Element) {name : Text}
    (named : ∀ item, (make item).name = name) (items : List α) (tag : Text) :
    ((items.map make).filter fun element => element.hasTag tag) =
      if sameLetters name tag then items.map make else [] := by
  split
  · next same =>
    apply List.filter_eq_self.mpr
    intro element present
    obtain ⟨item, -, rfl⟩ := List.mem_map.mp present
    rw [Element.hasTag, named, same]
  · next other =>
    apply List.filter_eq_nil_iff.mpr
    intro element present
    obtain ⟨item, -, rfl⟩ := List.mem_map.mp present
    rwa [Element.hasTag, named]

end Xml

end FetchQuery
