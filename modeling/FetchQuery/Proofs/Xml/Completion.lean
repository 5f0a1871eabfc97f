import FetchQuery.Proofs.Outcome
import FetchQuery.Xml.Document

/-!
# Reading on in a document

Between two pieces of a document there are only the growth so far and the text that is
still unread. `Growth.readOn` is what comes of reading on from there. A reading without
fault is a run of steps from piece to piece, `Completes`; such a run does not depend on
where in a document its pieces stand (`readOn_eq_ok_iff`).
-/

namespace FetchQuery

namespace Xml

open Text Outcome

namespace Growth

/-- What comes of reading all of a text on from a growth. -/
def readOn (document : Text) (growth : Growth) (text : Text) : Except DocumentFault Element := do
  let grown ← (scan text).pieces.foldlM (Growth.read document) growth
  match (scan text).fault? with
  | some (place, fault) => .error (.markup (offset document place) fault)
  | none => grown.finish

section

variable {document text rest : Text} {growth : Growth} {event : Event} {fault : MarkupFault}

theorem readOn_of_finished (h : next text = .finished) :
    growth.readOn document text = growth.finish := by
  rw [readOn, scan_of_finished h]
  rfl

theorem readOn_of_fault (h : next text = .fault fault) :
    growth.readOn document text = .error (.markup (offset document text) fault) := by
  rw [readOn, scan_of_fault h]
  rfl

theorem readOn_of_event (h : next text = .event event rest) :
    growth.readOn document text =
      growth.read document ⟨text, event⟩ >>= fun grown => grown.readOn document rest := by
  rw [readOn, scan_of_event h, List.foldlM_cons, bind_assoc]
  rfl

end

/-- A piece makes a growth another one, wherever the piece stands. -/
def Takes (growth : Growth) (event : Event) (grown : Growth) : Prop :=
  ∀ document place, growth.read document ⟨place, event⟩ = .ok grown

/-- Where a piece stands matters only for faults. -/
theorem takes_iff {document place : Text} {growth grown : Growth} {event : Event} :
    growth.Takes event grown ↔ growth.read document ⟨place, event⟩ = .ok grown := by
  constructor
  · intro h
    exact h document place
  · intro h document' place'
    cases event with
    | closeTag content =>
        simp only [read, bind_eq_ok_iff, mapError_eq_ok_iff] at h ⊢
        exact h
    | _ => exact h

/-! ### What a piece does -/

section

variable {growth grown : Growth} {element : Element}

/-- An element goes into the innermost unfinished one, or becomes the root if there is
neither. -/
theorem attach_cases (h : growth.attach element = .ok grown) :
    (∃ parent outer, growth.unfinished = parent :: outer ∧
      grown = { growth with
        unfinished := { parent with children := parent.children ++ [element] } :: outer }) ∨
    (growth.unfinished = [] ∧ growth.root? = none ∧
      grown = { growth with root? := some element }) := by
  unfold attach at h
  split at h
  · next parent outer inside =>
    cases h
    exact .inl ⟨parent, outer, inside, rfl⟩
  · next outside =>
    split at h
    · exact nomatch h
    · next rootless =>
      cases h
      exact .inr ⟨outside, rootless, rfl⟩

/-- A piece opens an element, attaches one of its own or the innermost one, or does nothing. -/
theorem Takes.cases {event : Event} (h : growth.Takes event grown) :
    (∃ content element, event = .openTag content ∧ Element.ofTag content = .ok element ∧
      grown = { growth with
        names := tagName content :: growth.names
        unfinished := element :: growth.unfinished }) ∨
    (∃ content element, event = .emptyTag content ∧ Element.ofTag content = .ok element ∧
      growth.attach element = .ok grown) ∨
    (∃ content names element outer, event = .closeTag content ∧
      closeName growth.names (closingName content) = .ok names ∧
      growth.unfinished = element :: outer ∧
      attach ⟨names, outer, growth.root?⟩ element = .ok grown) ∨
    ((∀ content, event ≠ .openTag content ∧ event ≠ .emptyTag content ∧
      event ≠ .closeTag content) ∧ grown = growth) := by
  replace h := h [] []
  cases event with
  | openTag content =>
      obtain ⟨element, read, same⟩ := bind_eq_ok_iff.mp h
      cases same
      exact .inl ⟨content, element, rfl, mapError_eq_ok_iff.mp read, rfl⟩
  | emptyTag content =>
      obtain ⟨element, read, attached⟩ := bind_eq_ok_iff.mp h
      exact .inr (.inl ⟨content, element, rfl, mapError_eq_ok_iff.mp read, attached⟩)
  | closeTag content =>
      obtain ⟨names, closed, finished⟩ := bind_eq_ok_iff.mp h
      unfold finishElement at finished
      split at finished
      · exact nomatch finished
      · next element outer innermost =>
        exact .inr (.inr (.inl ⟨content, names, element, outer, rfl,
          mapError_eq_ok_iff.mp closed, innermost, finished⟩))
  | _ =>
      cases h
      exact .inr (.inr (.inr ⟨fun content => ⟨nofun, nofun, nofun⟩, rfl⟩))

/-- Only a second root cannot be attached. -/
theorem attach_eq_error {fault : DocumentFault} (h : growth.attach element = .error fault) :
    fault = .secondRoot element.name := by
  unfold attach at h
  split at h
  · cases h
  · split at h
    · cases h
      rfl
    · cases h

theorem elementOfTag_eq_error {content : Text} {fault : DocumentFault}
    (h : elementOfTag content = .error fault) : ∃ given, fault = .tag (tagName content) given := by
  obtain ⟨given, -, same⟩ := mapError_eq_error_iff.mp h
  exact ⟨given, same.symm⟩

/-- A piece cannot be read if it is a tag with a fault, a closing tag that closes nothing, or the
end of a second root. A closing tag that finds no element would be one more case. -/
theorem read_error_cases {document : Text} {piece : Located} {fault : DocumentFault}
    (h : growth.read document piece = .error fault) :
    (∃ name given, fault = .tag name given) ∨ (∃ name, fault = .secondRoot name) ∨
    (∃ content given, piece.event = .closeTag content ∧
      closeName growth.names (closingName content) = .error given ∧
      fault = .markup (offset document piece.place) given) ∨
    (∃ content names, piece.event = .closeTag content ∧
      closeName growth.names (closingName content) = .ok names ∧ growth.unfinished = [] ∧
      fault = .unexpectedClosingTag) := by
  obtain ⟨place, event⟩ := piece
  cases event with
  | openTag content =>
      rcases bind_eq_error_iff.mp h with bad | ⟨element, -, later⟩
      · obtain ⟨given, same⟩ := elementOfTag_eq_error bad
        exact .inl ⟨_, given, same⟩
      · cases later
  | emptyTag content =>
      rcases bind_eq_error_iff.mp h with bad | ⟨element, -, later⟩
      · obtain ⟨given, same⟩ := elementOfTag_eq_error bad
        exact .inl ⟨_, given, same⟩
      · exact .inr (.inl ⟨_, attach_eq_error later⟩)
  | closeTag content =>
      rcases bind_eq_error_iff.mp h with bad | ⟨names, closed, later⟩
      · obtain ⟨given, wrong, same⟩ := mapError_eq_error_iff.mp bad
        exact .inr (.inr (.inl ⟨content, given, rfl, wrong, same.symm⟩))
      · unfold finishElement at later
        split at later
        · next nothing =>
          cases later
          exact .inr (.inr (.inr ⟨content, names, rfl, mapError_eq_ok_iff.mp closed, nothing, rfl⟩))
        · exact .inr (.inl ⟨_, attach_eq_error later⟩)
  | _ => cases h

end

section

variable {growth grown : Growth} {name content : Text} {element : Element}

theorem takes_openTag (h : Element.ofTag content = .ok element) (named : tagName content = name) :
    growth.Takes (.openTag content)
      ⟨name :: growth.names, element :: growth.unfinished, growth.root?⟩ := by
  intro document place
  simp only [read, elementOfTag, h, named]
  rfl

theorem takes_emptyTag (h : Element.ofTag content = .ok element)
    (attached : growth.attach element = .ok grown) : growth.Takes (.emptyTag content) grown := by
  intro document place
  simp only [read, elementOfTag, h]
  exact attached

theorem takes_closeTag (named : closingName content = name)
    (attached : growth.attach element = .ok grown) :
    Takes ⟨name :: growth.names, element :: growth.unfinished, growth.root?⟩
      (.closeTag content) grown := by
  intro document place
  simp only [read, closeName, named, if_true]
  exact attached

/-- Elements that are attached inside an element become its children. -/
theorem foldlM_attach (children : List Element) (growth : Growth) (parent : Element)
    (outer : List Element) (h : growth.unfinished = parent :: outer) :
    children.foldlM attach growth = .ok { growth with
      unfinished := { parent with children := parent.children ++ children } :: outer } := by
  induction children generalizing growth parent with
  | nil =>
      obtain ⟨names, unfinished, root?⟩ := growth
      obtain ⟨name, attributes, children⟩ := parent
      cases h
      simp [pure, Except.pure]
  | cons child children ih =>
      have attached : growth.attach child = .ok { growth with
          unfinished := { parent with children := parent.children ++ [child] } :: outer } := by
        simp only [attach, h]
      rw [List.foldlM_cons, attached]
      refine (ih _ _ rfl).trans ?_
      simp

end

/-- At the end an element is not closed, there has been none, or there is a tree. -/
theorem finish_cases (growth : Growth) :
    (∃ element outer, growth.unfinished = element :: outer ∧
      growth.finish = .error (.neverClosed element.name)) ∨
    (growth.unfinished = [] ∧ growth.root? = none ∧ growth.finish = .error .noRoot) ∨
    ∃ root, growth.unfinished = [] ∧ growth.root? = some root ∧ growth.finish = .ok root := by
  obtain ⟨names, unfinished, root?⟩ := growth
  cases unfinished with
  | cons element outer => exact .inl ⟨element, outer, rfl, rfl⟩
  | nil =>
      cases root? with
      | none => exact .inr (.inl ⟨rfl, rfl, rfl⟩)
      | some root => exact .inr (.inr ⟨root, rfl, rfl, rfl⟩)

/-- A finished growth has its tree as its root, and nothing is under construction. -/
theorem of_finish {growth : Growth} {root : Element} (h : growth.finish = .ok root) :
    growth.unfinished = [] ∧ growth.root? = some root := by
  rcases growth.finish_cases with ⟨_, _, -, ended⟩ | ⟨-, -, ended⟩ | ⟨tree, outside, rooted, ended⟩
  · exact nomatch h.symm.trans ended
  · exact nomatch h.symm.trans ended
  · cases h.symm.trans ended
    exact ⟨outside, rooted⟩

theorem root?_of_finish {growth : Growth} {root : Element} (h : growth.finish = .ok root) :
    growth.root? = some root :=
  (of_finish h).2

end Growth

/-- A growth that becomes a tree when a text is read on to its end. -/
inductive Completes : Growth → Text → Element → Prop
  | finish {growth : Growth} {text : Text} {tree : Element} (ended : next text = .finished)
      (finished : growth.finish = .ok tree) : Completes growth text tree
  | read {growth grown : Growth} {text rest : Text} {event : Event} {tree : Element}
      (step : next text = .event event rest) (takes : growth.Takes event grown)
      (more : Completes grown rest tree) : Completes growth text tree

/-- Reading on gives a tree exactly when a run of steps gives it. -/
theorem readOn_eq_ok_iff {document text : Text} {growth : Growth} {tree : Element} :
    growth.readOn document text = .ok tree ↔ Completes growth text tree := by
  constructor
  · intro h
    induction text using scan.induct generalizing growth with
    | case1 text step =>
        rw [Growth.readOn_of_finished step] at h
        exact .finish step h
    | case2 text fault step => simp [Growth.readOn_of_fault step] at h
    | case3 text event rest step ih =>
        rw [Growth.readOn_of_event step, bind_eq_ok_iff] at h
        obtain ⟨grown, read, more⟩ := h
        exact .read step (Growth.takes_iff.mpr read) (ih more)
  · intro h
    induction h with
    | finish ended finished => rw [Growth.readOn_of_finished ended, finished]
    | read step takes _ ih =>
        rw [Growth.readOn_of_event step, bind_eq_ok_iff]
        exact ⟨_, Growth.takes_iff.mp takes, ih⟩

/-- A document is read as a tree exactly when nothing grows into the tree over it. -/
theorem treeOf_eq_ok_iff {document : Text} {tree : Element} :
    treeOf document = .ok tree ↔ Completes Growth.start document tree :=
  @readOn_eq_ok_iff document document Growth.start tree

end Xml

end FetchQuery
