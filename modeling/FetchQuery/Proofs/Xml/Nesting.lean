import FetchQuery.Proofs.Xml.Mark

/-!
# How elements are nested

A document is read as a tree exactly when its tags stand in the order of the tree
(`ofDocument_eq_ok_iff_marks`).

## Implementation notes

Closing tags are checked against the names of open tags before elements are finished. So a run of
marks is a run of names, too (`Growth.namesAfter_of_takes`).
-/

namespace FetchQuery

namespace Xml

open Text Outcome

/-! ### The marks of a document -/

namespace Event

/-- The marks of a piece. An empty tag opens an element and closes it; what is no tag has no
marks. -/
def marks : Event → Except TagFault (List Mark)
  | openTag content => do
      let element ← Element.ofTag content
      return [.opens element.name element.attributes]
  | emptyTag content => do
      let element ← Element.ofTag content
      return [.opens element.name element.attributes, .closes element.name]
  | closeTag content => .ok [.closes (closingName content)]
  | _ => .ok []

/-- The marks of pieces one after another, if each tag among them can be read. -/
def marksAll : List Event → Except TagFault (List Mark)
  | [] => .ok []
  | event :: events => do
      let first ← event.marks
      let later ← marksAll events
      return first ++ later

/-- The names of open tags behind a piece, innermost first. A closing tag has to name the first
of them. -/
def namesAfter (names : List Text) : Event → Except MarkupFault (List Text)
  | openTag content => .ok (tagName content :: names)
  | closeTag content => closeName names (closingName content)
  | _ => .ok names

end Event

/-- The pieces of a document, up to the first fault. -/
def events (document : Text) : List Event :=
  (scan document).pieces.map Located.event

/-- A document that is markup to its end, with each closing tag closing the innermost open one.
Tags may stay open. -/
structure IsMarkup (document : Text) : Prop where
  noFault : (scan document).fault? = none
  closes : ∃ names, (events document).foldlM Event.namesAfter [] = .ok names

/-! ### Reading is a run of marks -/

namespace Growth

/-- A closing tag closes the innermost open one. -/
theorem closeName_eq_ok_iff {names names' : List Text} {name : Text} :
    closeName names name = .ok names' ↔ names = name :: names' := by
  cases names with
  | nil => simp [closeName]
  | cons expected outer =>
      by_cases same : expected = name
      · simp [closeName, same]
      · simp [closeName, same]

section

variable {growth grown : Growth} {event : Event} {content : Text} {element : Element}

/-- A tag gives an element with the name of the tag and without children. -/
theorem exists_eq_of_ofTag (h : Element.ofTag content = .ok element) :
    ∃ attributes, element = ⟨tagName content, attributes, []⟩ := by
  obtain ⟨attributes, -, same⟩ := bind_eq_ok_iff.mp h
  cases same
  exact ⟨attributes, rfl⟩

/-- What a piece makes of a growth its marks make of it. -/
theorem Takes.exists_marks (h : growth.Takes event grown) :
    ∃ marks, event.marks = .ok marks ∧ marks.foldlM mark? growth = some grown := by
  rcases h.cases with ⟨content, element, rfl, read, rfl⟩ | ⟨content, element, rfl, read, attached⟩ |
    ⟨content, names, element, outer, rfl, closed, inside, attached⟩ | ⟨noTag, rfl⟩
  · obtain ⟨attributes, rfl⟩ := exists_eq_of_ofTag read
    exact ⟨[_], bind_eq_ok_iff.mpr ⟨_, read, rfl⟩, rfl⟩
  · obtain ⟨attributes, rfl⟩ := exists_eq_of_ofTag read
    refine ⟨Element.marks ⟨tagName content, attributes, []⟩, ?_, ?_⟩
    · exact bind_eq_ok_iff.mpr ⟨_, read, rfl⟩
    · rw [foldlM_mark?_marks, toOption_eq_some_iff]
      exact attached
  · refine ⟨[.closes (closingName content)], rfl, ?_⟩
    rw [foldlM_mark?_singleton, mark?_closes_eq_some_iff]
    exact ⟨names, element, outer, closeName_eq_ok_iff.mp closed, inside, attached⟩
  · refine ⟨[], ?_, rfl⟩
    cases event with
    | openTag content => exact absurd rfl (noTag content).1
    | emptyTag content => exact absurd rfl (noTag content).2.1
    | closeTag content => exact absurd rfl (noTag content).2.2
    | _ => rfl

/-- What the marks of a piece make of a growth the piece makes of it. -/
theorem takes_of_marks {marks : List Mark} (hmarks : event.marks = .ok marks)
    (made : marks.foldlM mark? growth = some grown) : growth.Takes event grown := by
  cases event with
  | openTag content =>
      obtain ⟨element, read, same⟩ := bind_eq_ok_iff.mp hmarks
      cases same
      obtain ⟨attributes, rfl⟩ := exists_eq_of_ofTag read
      cases made
      exact takes_openTag read rfl
  | emptyTag content =>
      obtain ⟨element, read, same⟩ := bind_eq_ok_iff.mp hmarks
      cases same
      obtain ⟨attributes, rfl⟩ := exists_eq_of_ofTag read
      have attached := foldlM_mark?_marks ⟨tagName content, attributes, []⟩ growth
      exact takes_emptyTag read (toOption_eq_some_iff.mp (attached.symm.trans made))
  | closeTag content =>
      cases hmarks
      rw [foldlM_mark?_singleton, mark?_closes_eq_some_iff] at made
      obtain ⟨names, element, outer, hnames, inside, attached⟩ := made
      obtain ⟨names', unfinished, root?⟩ := growth
      cases hnames
      cases inside
      exact takes_closeTag rfl attached
  | _ =>
      cases hmarks
      cases made
      exact fun _ _ => rfl

theorem takes_iff_marks :
    growth.Takes event grown ↔
      ∃ marks, event.marks = .ok marks ∧ marks.foldlM mark? growth = some grown := by
  constructor
  · exact Takes.exists_marks
  · rintro ⟨marks, hmarks, made⟩
    exact takes_of_marks hmarks made

end

/-- So it is for pieces one after another. -/
theorem foldlM_read_eq_ok_iff {document : Text} {pieces : List Located} {growth grown : Growth} :
    pieces.foldlM (read document) growth = .ok grown ↔
      ∃ marks, Event.marksAll (pieces.map Located.event) = .ok marks ∧
        marks.foldlM mark? growth = some grown := by
  induction pieces generalizing growth with
  | nil =>
      constructor
      · intro h
        cases h
        exact ⟨[], rfl, rfl⟩
      · rintro ⟨marks, hmarks, made⟩
        cases hmarks
        cases made
        rfl
  | cons piece pieces ih =>
      obtain ⟨place, event⟩ := piece
      rw [List.foldlM_cons, bind_eq_ok_iff]
      simp only [← takes_iff, takes_iff_marks, ih, List.map_cons, Event.marksAll, bind_eq_ok_iff]
      constructor
      · rintro ⟨middle, ⟨first, hfirst, toMiddle⟩, later, hlater, toEnd⟩
        refine ⟨first ++ later, ⟨first, hfirst, later, hlater, rfl⟩, ?_⟩
        rw [List.foldlM_append, toMiddle]
        exact toEnd
      · rintro ⟨marks, ⟨first, hfirst, later, hlater, same⟩, made⟩
        cases same
        rw [List.foldlM_append] at made
        obtain ⟨middle, toMiddle, toEnd⟩ := Option.bind_eq_some_iff.mp made
        exact ⟨middle, ⟨first, hfirst, toMiddle⟩, later, hlater, toEnd⟩

theorem names_of_attach {growth grown : Growth} {element : Element}
    (h : growth.attach element = .ok grown) : grown.names = growth.names := by
  rcases attach_cases h with ⟨parent, outer, -, rfl⟩ | ⟨-, -, rfl⟩
  · rfl
  · rfl

/-- The names behind a piece are those of the growth that it makes. -/
theorem namesAfter_of_takes {growth grown : Growth} {event : Event}
    (h : growth.Takes event grown) : event.namesAfter growth.names = .ok grown.names := by
  rcases h.cases with ⟨content, element, rfl, -, rfl⟩ | ⟨content, element, rfl, -, attached⟩ |
    ⟨content, names, element, outer, rfl, closed, -, attached⟩ | ⟨noTag, rfl⟩
  · rfl
  · rw [names_of_attach attached]
    rfl
  · rw [names_of_attach attached]
    exact closed
  · cases event with
    | openTag content => exact absurd rfl (noTag content).1
    | closeTag content => exact absurd rfl (noTag content).2.2
    | _ => rfl

theorem foldlM_namesAfter_of_foldlM_read {document : Text} {pieces : List Located}
    {growth grown : Growth} (h : pieces.foldlM (read document) growth = .ok grown) :
    (pieces.map Located.event).foldlM Event.namesAfter growth.names = .ok grown.names := by
  induction pieces generalizing growth with
  | nil =>
      cases h
      rfl
  | cons piece pieces ih =>
      rw [List.foldlM_cons, bind_eq_ok_iff] at h
      obtain ⟨middle, step, later⟩ := h
      rw [List.map_cons, List.foldlM_cons, namesAfter_of_takes (takes_iff.mpr step)]
      exact ih later

end Growth

/-! ### Documents -/

/-- A document is read as a tree when its pieces make a growth that is finished with the tree. -/
theorem treeOf_eq_ok_iff_foldlM {document : Text} {tree : Element} :
    treeOf document = .ok tree ↔ (scan document).fault? = none ∧
      ∃ grown, (scan document).pieces.foldlM (Growth.read document) Growth.start = .ok grown ∧
        grown.finish = .ok tree := by
  rw [treeOf, bind_eq_ok_iff]
  cases (scan document).fault? with
  | none => simp
  | some fault => simp

/-- A document is read as a tree exactly when it is markup to its end, each tag in it that opens
an element can be read, and its tags are those of the tree, in the order of the tree. The tags
leave no choice of the tree. -/
theorem ofDocument_eq_ok_iff_marks {input : Text} {tree : Element} :
    let document := withoutByteOrderMark input
    (Element.ofDocument input = .ok tree ↔
      IsMarkup document ∧ Event.marksAll (events document) = .ok tree.marks) ∧
    ∀ other : Element, other.marks = tree.marks → other = tree := by
  intro document
  refine ⟨?_, fun other same => Element.marks_injective same⟩
  rw [Element.ofDocument, treeOf_eq_ok_iff_foldlM]
  constructor
  · rintro ⟨noFault, grown, read, finished⟩
    obtain ⟨marks, hmarks, made⟩ := Growth.foldlM_read_eq_ok_iff.mp read
    have closes := Growth.foldlM_namesAfter_of_foldlM_read read
    rw [Growth.exists_finish_iff.mp ⟨grown, made, finished⟩] at hmarks
    exact ⟨⟨noFault, grown.names, closes⟩, hmarks⟩
  · rintro ⟨⟨noFault, -⟩, hmarks⟩
    obtain ⟨grown, made, finished⟩ := Growth.exists_finish_iff.mpr (rfl : tree.marks = tree.marks)
    exact ⟨noFault, grown, Growth.foldlM_read_eq_ok_iff.mpr ⟨tree.marks, hmarks, made⟩, finished⟩

/-- Children stand in the order of their tags; what looks like a tag in a comment is none. -/
theorem ofDocument_eq_ok_iff_marks_siblings :
    let input : Text := "<?x?><a>t<b k='1'/><!--</a>--><c>&x;</c ></a>"
    let tree : Element := ⟨"a", [], [⟨"b", [⟨"k", "1"⟩], []⟩, ⟨"c", [], []⟩]⟩
    tree.marks = [.opens "a" [], .opens "b" [⟨"k", "1"⟩], .closes "b", .opens "c" [], .closes "c",
      .closes "a"] ∧ Element.ofDocument input = .ok tree := by
  intro input tree
  have markup : IsMarkup (withoutByteOrderMark input) :=
    ⟨by decide +kernel, [], by decide +kernel⟩
  have read : Event.marksAll (events (withoutByteOrderMark input)) = .ok tree.marks := by
    decide +kernel
  exact ⟨rfl, ofDocument_eq_ok_iff_marks.1.mpr ⟨markup, read⟩⟩

end Xml

end FetchQuery
