import FetchQuery.Proofs.Xml.Extension

/-!
# Where the root of a document ends

The root of a document ends with the first piece behind which a reading has a root. Up to
there the document is read as the same tree (`Element.exists_rootEnd`), and no part of the
document that ends before can be read (`Element.suffix_of_rootEnd`). Behind the root there is
nothing that changes the tree, so a part that ends there can be read unless it cuts off a piece
(`Element.ofDocument_part_iff`).
-/

namespace FetchQuery

namespace Xml

open Text

/-- The piece that makes a root of a growth, and what follows the piece. -/
def Growth.rootEnd? (growth : Growth) (text : Text) : Option (Event × Text) :=
  match _step : next text with
  | .event event rest =>
      match growth.read text ⟨text, event⟩ with
      | .ok grown => if grown.root?.isSome then some (event, rest) else grown.rootEnd? rest
      | .error _ => none
  | _ => none
termination_by text.length
decreasing_by exact length_lt_of_next (by assumption)

/-- The piece with which the root of a document ends, and what follows the root. -/
def rootEnd? (document : Text) : Option (Event × Text) :=
  Growth.start.rootEnd? (withoutByteOrderMark document)

section

variable {growth grown : Growth} {text part rest more trail : Text} {event tag : Event}
  {tree : Element}

theorem Growth.rootEnd?_of_takes (step : next text = .event event rest)
    (takes : growth.Takes event grown) :
    growth.rootEnd? text =
      if grown.root?.isSome then some (event, rest) else grown.rootEnd? rest := by
  rw [Growth.rootEnd?]
  split
  · next event' rest' step' =>
    cases step.symm.trans step'
    rw [takes text text]
  · next other => exact absurd step (other event rest)

/-- Without a root there is more to read. -/
theorem Completes.exists_step (h : Completes growth text tree) (rootless : growth.root? = none) :
    ∃ event rest grown, next text = .event event rest ∧ growth.Takes event grown ∧
      Completes grown rest tree := by
  cases h with
  | finish _ finished => exact nomatch (Growth.root?_of_finish finished).symm.trans rootless
  | @read _ grown _ rest event _ step takes later =>
      exact ⟨event, rest, grown, step, takes, later⟩

/-! ### The root ends somewhere -/

theorem Growth.finish_of_attach {element root : Element}
    (attached : growth.attach element = .ok grown) (rootless : growth.root? = none)
    (rooted : grown.root? = some root) : grown.finish = .ok root := by
  rcases attach_cases attached with ⟨parent, outer, -, rfl⟩ | ⟨outside, -, rfl⟩
  · exact nomatch rooted.symm.trans rootless
  · cases rooted
    simp only [finish, outside]

/-- With its root a growth is finished. -/
theorem Growth.finish_of_takes {root : Element} (takes : growth.Takes event grown)
    (rootless : growth.root? = none) (rooted : grown.root? = some root) :
    grown.finish = .ok root := by
  rcases takes.cases with ⟨content, element, -, -, rfl⟩ | ⟨content, element, -, -, attached⟩ |
    ⟨content, names, element, outer, -, -, -, attached⟩ | ⟨-, rfl⟩
  · exact nomatch rooted.symm.trans rootless
  · exact finish_of_attach attached rootless rooted
  · exact finish_of_attach attached rootless rooted
  · exact nomatch rooted.symm.trans rootless

/-- Where a growth becomes a tree, it has its root somewhere. What follows the root is read on from
a growth that is finished with the tree already, and could be anything else that is read on from
there. -/
theorem Completes.exists_rooted (h : Completes growth text tree) (rootless : growth.root? = none) :
    ∃ before tag trail rooted, text = before ++ tag.source ++ trail ∧
      growth.rootEnd? text = some (tag, trail) ∧ rooted.finish = .ok tree ∧
      Completes rooted trail tree ∧
      ∀ tail, Completes rooted tail tree → Completes growth (before ++ tag.source ++ tail) tree := by
  induction h with
  | finish _ finished => exact nomatch (Growth.root?_of_finish finished).symm.trans rootless
  | @read growth grown text rest event tree step takes later ih =>
      have start := growth.rootEnd?_of_takes step takes
      cases rooted : grown.root? with
      | some root =>
          cases later.tree_eq_of_root rooted
          refine ⟨text.takeWhile isBlank, event, rest, grown, eq_of_next step, ?_,
            Growth.finish_of_takes takes rootless rooted, later, ?_⟩
          · rw [start, rooted]
            rfl
          · intro tail behind
            have marked : IsApart (dropBlanks text) := by
              apply (apart_of_next step).resolve_right
              rintro ⟨⟨first, tail, rfl⟩, -⟩
              rw [takes.eq_of_text, rootless] at rooted
              exact nomatch rooted
            exact .read (next_replace step (.inl marked)) takes behind
      | none =>
          obtain ⟨before, tag, trail, final, rfl, found, finished, behind, short⟩ := ih rooted
          refine ⟨text.takeWhile isBlank ++ event.source ++ before, tag, trail, final, ?_, ?_,
            finished, behind, ?_⟩
          · simpa only [List.append_assoc] using eq_of_next step
          · rw [start, rooted]
            exact found
          · intro tail again
            have apart : IsApart (dropBlanks text) ∨ IsApart (before ++ tag.source ++ tail) := by
              apply (apart_of_next step).imp id
              rintro ⟨-, apart⟩
              exact apart.replace (by simp [tag.source_ne_nil])
            have step' := next_replace step apart
            simp only [List.append_assoc] at step' ⊢
            exact .read step' takes (by simpa using short tail again)

/-! ### Parts of a document -/

/-- A text that becomes a tree is markup to its end. -/
theorem Completes.noFault (h : Completes growth text tree) : (scan text).fault? = none := by
  induction h with
  | finish ended _ => rw [scan_of_finished ended]
  | read step _ _ ih => rw [scan_of_event step, ih]

/-- In what becomes a tree the root has ended, and what follows it is markup to its end. -/
theorem Completes.rootEnd?_append (h : Completes growth part tree)
    (rootless : growth.root? = none) :
    ∃ tag rest, growth.rootEnd? (part ++ more) = some (tag, rest ++ more) ∧
      (scan rest).fault? = none := by
  induction h with
  | finish _ finished => exact nomatch (Growth.root?_of_finish finished).symm.trans rootless
  | @read growth grown text rest event tree step takes later ih =>
      rcases next_append_cases step more with step' | ⟨⟨first, tail, rfl⟩, rfl⟩
      · have start := growth.rootEnd?_of_takes step' takes
        cases rooted : grown.root? with
        | some root =>
            rw [rooted] at start
            exact ⟨event, rest, start, later.noFault⟩
        | none =>
            rw [start, rooted]
            exact ih rooted
      -- Text at the very end brings no root.
      · rw [takes.eq_of_text] at later
        obtain ⟨event, rest, grown, step, -⟩ := later.exists_step rootless
        exact nomatch step

/-- Beside a root an element can only be attached inside another one. -/
theorem Growth.unfinished_ne_nil_of_attach {element root : Element}
    (attached : growth.attach element = .ok grown) (rooted : growth.root? = some root) :
    grown.unfinished ≠ [] := by
  rcases attach_cases attached with ⟨parent, outer, -, rfl⟩ | ⟨-, rootless, -⟩
  · exact List.cons_ne_nil _ outer
  · exact nomatch rooted.symm.trans rootless

/-- Beside a root a piece that leaves nothing under construction changes nothing. -/
theorem Growth.Takes.eq_of_root {root : Element} (takes : growth.Takes event grown)
    (rooted : growth.root? = some root) (closed : grown.unfinished = []) : grown = growth := by
  rcases takes.cases with ⟨content, element, -, -, rfl⟩ | ⟨content, element, -, -, attached⟩ |
    ⟨content, names, element, outer, -, -, -, attached⟩ | ⟨-, same⟩
  · exact nomatch closed
  · exact absurd closed (unfinished_ne_nil_of_attach attached rooted)
  · exact absurd closed (unfinished_ne_nil_of_attach attached rooted)
  · exact same

/-- Behind the root nothing is under construction: it would become a second root. -/
theorem Completes.unfinished_eq_nil {root : Element} (h : Completes growth text tree)
    (rooted : growth.root? = some root) : growth.unfinished = [] := by
  induction h with
  | finish _ finished => exact (Growth.of_finish finished).1
  | read _ takes _ ih =>
      have closed := ih (takes.root? rooted)
      rwa [takes.eq_of_root rooted closed] at closed

/-- What is read behind the root can be cut off wherever no piece is cut. -/
theorem Completes.of_append (h : Completes growth (text ++ more) tree)
    (finished : growth.finish = .ok tree) (noFault : (scan text).fault? = none) :
    Completes growth text tree := by
  induction text using scan.induct with
  | case1 text step => exact .finish step finished
  | case2 text fault step =>
      rw [scan_of_fault step] at noFault
      cases noFault
  | case3 text event rest step ih =>
      rw [scan_of_event step] at noFault
      rcases next_append_cases step more with step' | ⟨⟨first, tail, rfl⟩, rfl⟩
      · have rooted := Growth.root?_of_finish finished
        cases h with
        | finish ended _ => cases step'.symm.trans ended
        | read again takes later =>
            cases step'.symm.trans again
            have closed := later.unfinished_eq_nil (takes.root? rooted)
            cases takes.eq_of_root rooted closed
            exact .read step takes (ih later noFault)
      -- Text that is cut is text.
      · exact .read step (fun _ _ => rfl) (.finish rfl finished)

/-! ### Text in front -/

end

/-! ### Documents -/

/-- A document is its text behind at most a byte order mark. -/
theorem eq_append_withoutByteOrderMark (text : Text) :
    ∃ mark : Text, text = mark ++ withoutByteOrderMark text ∧ ∀ c ∈ mark, c ≠ '<' ∧ c ≠ '&' := by
  unfold withoutByteOrderMark
  split
  · exact ⟨['\uFEFF'], rfl, by simp⟩
  · exact ⟨[], rfl, nofun⟩

variable {document text part more trail : Text} {tag : Event} {tree : Element}

/-- The root of a document that can be read ends somewhere. What follows it could be anything else
that is read on from there. -/
theorem Element.exists_rooted (h : Element.ofDocument document = .ok tree) :
    ∃ before tag trail rooted, document = before ++ tag.source ++ trail ∧
      rootEnd? document = some (tag, trail) ∧ Growth.finish rooted = .ok tree ∧
      Completes rooted trail tree ∧
      ∀ tail, Completes rooted tail tree →
        Element.ofDocument (before ++ tag.source ++ tail) = .ok tree := by
  obtain ⟨mark, whole, -⟩ := eq_append_withoutByteOrderMark document
  obtain ⟨before, tag, trail, rooted, split, found, finished, behind, short⟩ :=
    (treeOf_eq_ok_iff.mp h).exists_rooted rfl
  rw [split] at whole
  -- The mark is taken off whatever follows the root.
  have taken : withoutByteOrderMark (mark ++ (before ++ tag.source)) = before ++ tag.source := by
    rw [whole] at split
    exact withoutByteOrderMark_part split
  refine ⟨mark ++ before, tag, trail, rooted, ?_, found, finished, behind, ?_⟩
  · simpa only [List.append_assoc] using whole
  · intro tail again
    have shown : mark ++ (before ++ tag.source) ≠ [] := by simp [tag.source_ne_nil]
    rw [Element.ofDocument, List.append_assoc mark, withoutByteOrderMark_append shown, taken,
      treeOf_eq_ok_iff]
    exact short tail again

/-- A document that can be read has its root in it, and markup to its end behind the root, whatever
follows. -/
theorem Element.rootEnd?_append (h : Element.ofDocument part = .ok tree) (more : Text) :
    ∃ tag rest, rootEnd? (part ++ more) = some (tag, rest ++ more) ∧
      (scan rest).fault? = none := by
  rw [rootEnd?, withoutByteOrderMark_append (Element.ne_nil_of_ofDocument h)]
  exact (treeOf_eq_ok_iff.mp h).rootEnd?_append rfl

/-- The root of a document ends in a part of the document, and behind the root the part is markup
to its end: it may cut off a text, but no other piece. -/
def EndsBehindRoot (part more : Text) : Prop :=
  ∃ tag rest, rootEnd? (part ++ more) = some (tag, rest ++ more) ∧ (scan rest).fault? = none

/-- The beginning of a document is read as the tree of the document exactly when it ends behind the
root. -/
theorem Element.ofDocument_part_iff (h : Element.ofDocument (part ++ more) = .ok tree) :
    Element.ofDocument part = .ok tree ↔ EndsBehindRoot part more := by
  constructor
  · intro read
    exact Element.rootEnd?_append read more
  · rintro ⟨tag, rest, found, noFault⟩
    obtain ⟨before, tag', trail, rooted, whole, found', finished, behind, short⟩ :=
      Element.exists_rooted h
    cases found.symm.trans found'
    rw [← List.append_assoc] at whole
    rw [List.append_cancel_right whole]
    exact short rest (behind.of_append finished noFault)

end Xml

end FetchQuery
