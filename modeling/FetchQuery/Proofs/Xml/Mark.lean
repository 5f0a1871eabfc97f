import FetchQuery.Proofs.Outcome
import FetchQuery.Proofs.Xml.Completion

/-!
# The marks of a tree

A tree tells in which order its tags stand: it opens, what is in it follows, and it closes. These
marks, one after another, make a growth that attaches the tree (`Growth.foldlM_mark?_marks`), and
what they have made so far has them as its own marks (`Growth.marks_of_mark?`). So marks make a
tree exactly when they are the marks of the tree (`Growth.exists_finish_iff`).
-/

namespace FetchQuery

namespace Xml

open Outcome

/-- What a tag says about the tree. -/
inductive Mark where
  | opens (name : Text) (attributes : List Attribute)
  | closes (name : Text)
  deriving DecidableEq, Repr

mutual

/-- The marks of a tree: it opens, its children follow in order, and it closes. -/
def Element.marks : Element → List Mark
  | ⟨name, attributes, children⟩ =>
      .opens name attributes :: (Element.marksAll children ++ [.closes name])

/-- The marks of trees one after another. -/
def Element.marksAll : List Element → List Mark
  | [] => []
  | element :: elements => element.marks ++ Element.marksAll elements

end

theorem Element.marksAll_append (first second : List Element) :
    Element.marksAll (first ++ second) = Element.marksAll first ++ Element.marksAll second := by
  induction first with
  | nil => rfl
  | cons element first ih =>
      rw [List.cons_append, Element.marksAll, Element.marksAll, ih, List.append_assoc]

theorem Element.marksAll_singleton (element : Element) :
    Element.marksAll [element] = element.marks :=
  List.append_nil element.marks

/-! ### Marks make a growth -/

namespace Growth

/-- What a mark makes of a growth. -/
def mark? (growth : Growth) : Mark → Option Growth
  | .opens name attributes => some { growth with
      names := name :: growth.names
      unfinished := ⟨name, attributes, []⟩ :: growth.unfinished }
  | .closes name =>
      match growth.names, growth.unfinished with
      | expected :: names, element :: outer =>
          if expected = name then (attach ⟨names, outer, growth.root?⟩ element).toOption else none
      | _, _ => none

theorem foldlM_mark?_singleton (growth : Growth) (mark : Mark) :
    [mark].foldlM mark? growth = growth.mark? mark :=
  bind_pure (growth.mark? mark)

theorem mark?_opens (growth : Growth) (name : Text) (attributes : List Attribute) :
    growth.mark? (.opens name attributes) = some { growth with
      names := name :: growth.names
      unfinished := ⟨name, attributes, []⟩ :: growth.unfinished } := rfl

/-- A closing mark attaches the innermost element, if its tag is the innermost open one. -/
theorem mark?_closes_eq_some_iff {growth grown : Growth} {name : Text} :
    growth.mark? (.closes name) = some grown ↔
      ∃ names element outer, growth.names = name :: names ∧
        growth.unfinished = element :: outer ∧
        attach ⟨names, outer, growth.root?⟩ element = .ok grown := by
  obtain ⟨names, unfinished, root?⟩ := growth
  cases names with
  | nil => simp [mark?]
  | cons expected names =>
      cases unfinished with
      | nil => simp [mark?]
      | cons element outer =>
          by_cases same : expected = name
          · subst same
            simp [mark?, toOption_eq_some_iff]
          · simp [mark?, same]

/-! ### The marks of a tree make the tree -/

mutual

/-- The marks of a tree attach it. -/
theorem foldlM_mark?_marks : (element : Element) → (growth : Growth) →
    element.marks.foldlM mark? growth = (growth.attach element).toOption
  | ⟨name, attributes, children⟩, growth => by
      have filled := foldlM_attach children
        ⟨name :: growth.names, ⟨name, attributes, []⟩ :: growth.unfinished, growth.root?⟩
        ⟨name, attributes, []⟩ growth.unfinished rfl
      rw [Element.marks, List.foldlM_cons, mark?_opens, Option.bind_eq_bind, Option.bind_some,
        List.foldlM_append, foldlM_mark?_marksAll, filled, List.nil_append]
      simp [Except.toOption, mark?]

/-- The marks of trees attach them in order. -/
theorem foldlM_mark?_marksAll : (elements : List Element) → (growth : Growth) →
    (Element.marksAll elements).foldlM mark? growth = (elements.foldlM attach growth).toOption
  | [], growth => rfl
  | element :: elements, growth => by
      rw [Element.marksAll, List.foldlM_append, foldlM_mark?_marks, List.foldlM_cons]
      cases attached : growth.attach element with
      | error fault => rfl
      | ok grown => exact foldlM_mark?_marksAll elements grown

end

/-! ### Whatever marks make has these marks -/

/-- The names of open tags are the names of the unfinished elements. -/
def Matched (growth : Growth) : Prop :=
  growth.names = growth.unfinished.map Element.name

theorem matched_start : start.Matched := rfl

/-- What has been read of an element that is not closed yet. -/
def marksOfUnfinished (element : Element) : List Mark :=
  .opens element.name element.attributes :: Element.marksAll element.children

theorem marksOfUnfinished_append (element : Element) :
    marksOfUnfinished element ++ [.closes element.name] = element.marks := by
  obtain ⟨name, attributes, children⟩ := element
  rfl

/-- The marks that have been read. -/
def marks (growth : Growth) : List Mark :=
  Element.marksAll growth.root?.toList ++ growth.unfinished.reverse.flatMap marksOfUnfinished

theorem marks_cons (names names' : List Text) (element : Element) (outer : List Element)
    (root? : Option Element) :
    marks ⟨names, element :: outer, root?⟩ =
      marks ⟨names', outer, root?⟩ ++ marksOfUnfinished element := by
  simp [marks]

/-- An element that is attached adds its marks. -/
theorem marks_of_attach {growth grown : Growth} {element : Element}
    (h : growth.attach element = .ok grown) : grown.marks = growth.marks ++ element.marks := by
  obtain ⟨names, unfinished, root?⟩ := growth
  rcases attach_cases h with ⟨parent, outer, inside, rfl⟩ | ⟨outside, rootless, rfl⟩
  · cases inside
    rw [marks_cons names names, marks_cons names names, List.append_assoc]
    simp [marksOfUnfinished, Element.marksAll_append, Element.marksAll_singleton]
  · cases outside
    cases rootless
    simp [marks, Element.marksAll_singleton, Element.marksAll]

/-- Each mark is put behind the marks before it. -/
theorem marks_of_mark? {growth grown : Growth} {mark : Mark} (matched : growth.Matched)
    (h : growth.mark? mark = some grown) :
    grown.Matched ∧ grown.marks = growth.marks ++ [mark] := by
  obtain ⟨names, unfinished, root?⟩ := growth
  change names = unfinished.map Element.name at matched
  subst matched
  cases mark with
  | opens name attributes =>
      cases h
      exact ⟨rfl, marks_cons _ _ _ _ _⟩
  | closes name =>
      obtain ⟨names, element, outer, hnames, inside, attached⟩ := mark?_closes_eq_some_iff.mp h
      cases inside
      cases hnames
      constructor
      · rcases attach_cases attached with ⟨parent, outer, inside, rfl⟩ | ⟨-, -, rfl⟩
        · cases inside
          rfl
        · rfl
      · rw [marks_of_attach attached, ← marksOfUnfinished_append, ← List.append_assoc,
          ← marks_cons]

/-- So all marks stand in the order in which they were read. -/
theorem marks_of_foldlM_mark? {growth grown : Growth} {list : List Mark}
    (matched : growth.Matched) (h : list.foldlM mark? growth = some grown) :
    grown.Matched ∧ grown.marks = growth.marks ++ list := by
  induction list generalizing growth with
  | nil =>
      cases h
      exact ⟨matched, (List.append_nil _).symm⟩
  | cons mark list ih =>
      rw [List.foldlM_cons] at h
      obtain ⟨middle, step, later⟩ := Option.bind_eq_some_iff.mp h
      obtain ⟨matched', first⟩ := marks_of_mark? matched step
      obtain ⟨matched'', rest⟩ := ih matched' later
      refine ⟨matched'', ?_⟩
      rw [rest, first, List.append_assoc]
      rfl

/-- A growth is finished when its marks are those of its root. -/
theorem marks_of_finish {growth : Growth} {tree : Element} (h : growth.finish = .ok tree) :
    growth.marks = tree.marks := by
  obtain ⟨names, unfinished, root?⟩ := growth
  cases unfinished with
  | cons element outer => cases h
  | nil =>
      cases root? with
      | none => cases h
      | some root =>
          cases h
          simp [marks, Element.marksAll_singleton]

/-- Marks make a tree exactly when they are the marks of the tree. -/
theorem exists_finish_iff {list : List Mark} {tree : Element} :
    (∃ grown, list.foldlM mark? start = some grown ∧ grown.finish = .ok tree) ↔
      list = tree.marks := by
  constructor
  · rintro ⟨grown, made, finished⟩
    obtain ⟨-, whole⟩ := marks_of_foldlM_mark? matched_start made
    rw [marks_of_finish finished] at whole
    exact whole.symm
  · rintro rfl
    exact ⟨⟨[], [], some tree⟩, foldlM_mark?_marks tree start, rfl⟩

end Growth

/-- The marks of a tree belong to no other tree. -/
theorem Element.marks_injective : Function.Injective Element.marks := by
  intro first second same
  obtain ⟨grown, made, finished⟩ := Growth.exists_finish_iff.mpr (rfl : first.marks = first.marks)
  obtain ⟨grown', made', finished'⟩ := Growth.exists_finish_iff.mpr same
  cases made.symm.trans made'
  exact Except.ok.inj (finished.symm.trans finished')

end Xml

end FetchQuery
