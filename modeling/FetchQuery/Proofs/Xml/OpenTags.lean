import Mathlib.Data.List.Induction
import FetchQuery.Proofs.Xml.Nesting

/-!
# Tags that are open

Behind each piece of a document some tags are open: between them all tags are paired
(`LeavesOpen`). The names that closing tags are checked against are the names of these tags, and so
are the names of the elements under construction (`openTags_of_reading`). So a closing tag that
passes the check finds an element of its name, and the element that is never closed is that of the
last tag left open.

## Implementation notes

Which tags pieces leave open is said of the pieces alone, without the names or the elements that
are kept while they are read.
-/

namespace FetchQuery

namespace Xml

open Text Outcome

/-- Pieces in which each opening tag is closed by a closing tag of its name, and each closing tag
closes one. -/
inductive IsPaired : List Event → Prop
  | nil : IsPaired []
  | single {event : Event}
      (aside : ∀ content, event ≠ .openTag content ∧ event ≠ .closeTag content) :
      IsPaired [event]
  | element {content closing : Text} {inside : List Event} (h : IsPaired inside)
      (same : closingName closing = tagName content) :
      IsPaired (.openTag content :: (inside ++ [.closeTag closing]))
  | append {first second : List Event} (h : IsPaired first) (h' : IsPaired second) :
      IsPaired (first ++ second)

/-- The names of the tags that pieces leave open, innermost first. -/
inductive LeavesOpen : List Event → List Text → Prop
  | nothing {events : List Event} (paired : IsPaired events) : LeavesOpen events []
  | tag {before after : List Event} {content : Text} {names : List Text}
      (outer : LeavesOpen before names) (paired : IsPaired after) :
      LeavesOpen (before ++ .openTag content :: after) (tagName content :: names)

/-! ### The names that are checked -/

section

variable {events more : List Event} {names : List Text}

/-- What is paired changes no names. -/
theorem IsPaired.foldlM_namesAfter (h : IsPaired events) (names : List Text) :
    events.foldlM Event.namesAfter names = .ok names := by
  induction h generalizing names with
  | nil => rfl
  | @single event aside =>
      cases event with
      | openTag content => exact absurd rfl (aside content).1
      | closeTag content => exact absurd rfl (aside content).2
      | _ => rfl
  | @element content closing inside _ same ih =>
      rw [List.foldlM_cons, Event.namesAfter]
      change (inside ++ [_]).foldlM Event.namesAfter (tagName content :: names) = _
      rw [List.foldlM_append, ih, ← same]
      change closeName (closingName closing :: names) (closingName closing) >>= pure = _
      rw [bind_pure, Growth.closeName_eq_ok_iff]
  | append _ _ ih ih' =>
      rw [List.foldlM_append, ih]
      exact ih' names

theorem LeavesOpen.append (h : LeavesOpen events names) (paired : IsPaired more) :
    LeavesOpen (events ++ more) names := by
  cases h with
  | nothing within => exact .nothing (within.append paired)
  | tag outer within =>
      rw [List.append_assoc, List.cons_append]
      exact .tag outer (within.append paired)

/-- Behind the innermost tag that is left open all tags are paired. -/
theorem LeavesOpen.exists_last {name : Text} (h : LeavesOpen events (name :: names)) :
    ∃ before content after, events = before ++ .openTag content :: after ∧
      tagName content = name ∧ LeavesOpen before names ∧ IsPaired after := by
  generalize whole : name :: names = all at h
  cases h with
  | nothing => cases whole
  | @tag before after content names' outer paired =>
      cases whole
      exact ⟨before, content, after, rfl, rfl, outer, paired⟩

/-- A closing tag closes the innermost tag that is left open. -/
theorem LeavesOpen.close {content : Text} (h : LeavesOpen events (closingName content :: names)) :
    LeavesOpen (events ++ [.closeTag content]) names := by
  obtain ⟨before, opening, after, rfl, same, outer, paired⟩ := h.exists_last
  rw [List.append_assoc, List.cons_append]
  exact outer.append (.element paired same.symm)

/-- One more piece leaves open what the check of closing tags says. -/
theorem LeavesOpen.piece {event : Event} {names' : List Text} (h : LeavesOpen events names)
    (checked : event.namesAfter names = .ok names') : LeavesOpen (events ++ [event]) names' := by
  cases event with
  | openTag content =>
      cases checked
      exact .tag h .nil
  | closeTag content =>
      rw [Event.namesAfter, Growth.closeName_eq_ok_iff] at checked
      rw [checked] at h
      exact h.close
  | _ =>
      cases checked
      exact h.append (.single fun content => ⟨nofun, nofun⟩)

/-- The names that closing tags are checked against are those of the tags left open. -/
theorem leavesOpen_iff : LeavesOpen events names ↔
    events.foldlM Event.namesAfter [] = .ok names := by
  constructor
  · intro h
    induction h with
    | nothing paired => exact paired.foldlM_namesAfter []
    | @tag before after content names _ paired ih =>
        rw [List.foldlM_append, ih]
        exact paired.foldlM_namesAfter (tagName content :: names)
  · intro h
    -- From the end, as what a closing tag closes is left open by the pieces before it.
    induction events using List.reverseRecOn generalizing names with
    | nil =>
        cases h
        exact .nothing .nil
    | append_singleton events event ih =>
        rw [List.foldlM_append, bind_eq_ok_iff] at h
        obtain ⟨middle, before, last⟩ := h
        rw [List.foldlM_cons, bind_eq_ok_iff] at last
        obtain ⟨names', checked, same⟩ := last
        cases same
        exact (ih before).piece checked

end

/-! ### The elements under construction -/

namespace Growth

variable {growth : Growth} {document : Text} {pieces : List Located}

/-- What has been read has its elements under construction where it has open tags. -/
theorem matched_of_foldlM_read (h : pieces.foldlM (read document) start = .ok growth) :
    growth.Matched := by
  obtain ⟨marks, -, made⟩ := foldlM_read_eq_ok_iff.mp h
  exact (marks_of_foldlM_mark? matched_start made).1

/-- What has been read has the names of the tags that are left open. -/
theorem leavesOpen_iff_of_foldlM_read {names : List Text}
    (h : pieces.foldlM (read document) start = .ok growth) :
    LeavesOpen (pieces.map Located.event) names ↔ names = growth.names := by
  have checked : (pieces.map Located.event).foldlM Event.namesAfter [] = .ok growth.names :=
    foldlM_namesAfter_of_foldlM_read h
  rw [leavesOpen_iff, checked, Except.ok.injEq]
  exact eq_comm

/-- A closing tag that passes the check finds an element of its name. -/
theorem Matched.exists_element {names : List Text} {name : Text} (matched : growth.Matched)
    (closed : closeName growth.names name = .ok names) :
    ∃ element outer, growth.unfinished = element :: outer ∧ element.name = name ∧
      outer.map Element.name = names := by
  rw [closeName_eq_ok_iff, matched] at closed
  obtain ⟨element, outer, inside, named, others⟩ := List.map_eq_cons_iff.mp closed
  exact ⟨element, outer, inside, named, others⟩

/-- So no closing tag comes unexpected. -/
theorem Matched.read_ne_unexpected {piece : Located} (matched : growth.Matched) :
    growth.read document piece ≠ .error .unexpectedClosingTag := by
  intro h
  rcases read_error_cases h with ⟨name, given, same⟩ | ⟨name, same⟩ |
    ⟨content, given, -, -, same⟩ | ⟨content, names, -, closed, nothing, -⟩
  · cases same
  · cases same
  · cases same
  · obtain ⟨element, outer, inside, -, -⟩ := matched.exists_element closed
    cases nothing.symm.trans inside

/-- A piece that cannot be read leaves nothing unclosed. -/
theorem read_ne_neverClosed {piece : Located} {name : Text} :
    growth.read document piece ≠ .error (.neverClosed name) := by
  intro h
  rcases read_error_cases h with ⟨_, _, same⟩ | ⟨_, same⟩ | ⟨_, _, -, -, same⟩ |
    ⟨_, _, -, -, -, same⟩
  · cases same
  · cases same
  · cases same
  · cases same

end Growth

/-! ### Documents -/

/-- A document has no tree if one of its pieces cannot be read, if its markup is at fault, or if
something is missing at its end. -/
theorem treeOf_error_cases {document : Text} {fault : DocumentFault}
    (h : treeOf document = .error fault) :
    (∃ before piece after growth, (scan document).pieces = before ++ piece :: after ∧
      before.foldlM (Growth.read document) Growth.start = .ok growth ∧
      growth.read document piece = .error fault) ∨
    (∃ position given, fault = .markup position given) ∨
    ∃ growth, (scan document).pieces.foldlM (Growth.read document) Growth.start = .ok growth ∧
      growth.finish = .error fault := by
  rcases bind_eq_error_iff.mp h with early | ⟨growth, read, later⟩
  · exact .inl (exists_of_foldlM_eq_error early)
  · split at later
    · cases later
      exact .inr (.inl ⟨_, _, rfl⟩)
    · exact .inr (.inr ⟨growth, read, later⟩)

theorem treeOf_ne_unexpected (document : Text) :
    treeOf document ≠ .error .unexpectedClosingTag := by
  intro h
  rcases treeOf_error_cases h with ⟨_, _, _, growth, -, read, wrong⟩ | ⟨_, _, same⟩ |
    ⟨growth, -, ended⟩
  · exact (Growth.matched_of_foldlM_read read).read_ne_unexpected wrong
  · cases same
  · rcases growth.finish_cases with ⟨_, _, -, other⟩ | ⟨-, -, other⟩ | ⟨_, -, -, other⟩
    · cases ended.symm.trans other
    · cases ended.symm.trans other
    · cases ended.symm.trans other

/-- The element that is never closed is that of the last tag that is left open. -/
theorem exists_lastOpen_of_neverClosed {document name : Text}
    (h : treeOf document = .error (.neverClosed name)) :
    ∃ before content after names, events document = before ++ .openTag content :: after ∧
      tagName content = name ∧ LeavesOpen before names ∧ IsPaired after := by
  rcases treeOf_error_cases h with ⟨_, _, _, growth, -, -, wrong⟩ | ⟨_, _, same⟩ |
    ⟨growth, read, ended⟩
  · exact absurd wrong Growth.read_ne_neverClosed
  · cases same
  · rcases growth.finish_cases with ⟨element, outer, inside, other⟩ | ⟨-, -, other⟩ |
      ⟨_, -, -, other⟩
    · cases ended.symm.trans other
      have left := (Growth.leavesOpen_iff_of_foldlM_read read).mpr rfl
      rw [Growth.matched_of_foldlM_read read, inside, List.map_cons] at left
      obtain ⟨before, content, after, whole, named, outside, paired⟩ := left.exists_last
      exact ⟨before, content, after, _, whole, named, outside, paired⟩
    · cases ended.symm.trans other
    · cases ended.symm.trans other

/-- Behind each piece of a document the elements under construction are those of the tags that are
left open, and so are the names that closing tags are checked against. A closing tag that passes
the check finds an element of its name, and none comes unexpected. The element that is never closed
is that of the last tag that is left open. -/
theorem openTags_of_reading (input : Text) :
    let document := withoutByteOrderMark input
    (∀ before growth, before <+: (scan document).pieces →
      before.foldlM (Growth.read document) Growth.start = .ok growth →
        growth.unfinished.map Element.name = growth.names ∧
        (∀ names, LeavesOpen (before.map Located.event) names ↔ names = growth.names) ∧
        ∀ content names, closeName growth.names (closingName content) = .ok names →
          ∃ element outer, growth.unfinished = element :: outer ∧
            element.name = closingName content ∧ outer.map Element.name = names) ∧
    Element.ofDocument input ≠ .error .unexpectedClosingTag ∧
    ∀ name, Element.ofDocument input = .error (.neverClosed name) →
      ∃ before content after names, events document = before ++ .openTag content :: after ∧
        tagName content = name ∧ LeavesOpen before names ∧ IsPaired after := by
  intro document
  refine ⟨?_, treeOf_ne_unexpected document, fun name => exists_lastOpen_of_neverClosed⟩
  intro before growth _ read
  have matched := Growth.matched_of_foldlM_read read
  exact ⟨matched.symm, fun names => Growth.leavesOpen_iff_of_foldlM_read read,
    fun content names closed => matched.exists_element closed⟩

end Xml

end FetchQuery
