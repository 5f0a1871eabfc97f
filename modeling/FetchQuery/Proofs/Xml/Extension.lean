import FetchQuery.Proofs.Xml.Source

/-!
# Documents that go on

Text at the end of a document may run on into what follows, but text changes no growth, and
all other pieces stay as they are (`next_append`). A growth with a root can only become that
root, whatever follows (`Completes.tree_eq_of_root`). So a document that has a tree keeps it
or loses it when more is written behind the document.
-/

namespace FetchQuery

namespace Xml

open Text Outcome

/-! ### A root stays the root -/

namespace Growth

variable {growth grown other : Growth} {event : Event} {element root : Element}

theorem Takes.unique (h : growth.Takes event grown) (h' : growth.Takes event other) :
    other = grown :=
  Except.ok.inj ((h' [] []).symm.trans (h [] []))

/-- Text changes nothing. -/
theorem Takes.eq_of_text {first : Char} {tail : Text} (h : growth.Takes (.text first tail) grown) :
    grown = growth :=
  Takes.unique (fun _ _ => rfl) h

theorem root?_of_attach (h : growth.attach element = .ok grown) (hroot : growth.root? = some root) :
    grown.root? = some root := by
  rcases attach_cases h with ⟨parent, outer, -, rfl⟩ | ⟨-, rootless, -⟩
  · exact hroot
  · exact nomatch hroot.symm.trans rootless

/-- No piece changes a root: a tag outside of it could only start another root. -/
theorem Takes.root? (h : growth.Takes event grown) (hroot : growth.root? = some root) :
    grown.root? = some root := by
  rcases h.cases with ⟨content, element, -, -, rfl⟩ | ⟨content, element, -, -, attached⟩ |
    ⟨content, names, element, outer, -, -, -, attached⟩ | ⟨-, rfl⟩
  · exact hroot
  · exact root?_of_attach attached hroot
  · exact root?_of_attach attached hroot
  · exact hroot

end Growth

variable {growth : Growth} {text : Text} {tree tree' : Element}

/-- A growth with a root becomes no other tree. -/
theorem Completes.tree_eq_of_root (h : Completes growth text tree')
    (hroot : growth.root? = some tree) : tree' = tree := by
  induction h with
  | finish _ finished =>
      exact Option.some.inj ((Growth.root?_of_finish finished).symm.trans hroot)
  | read _ takes _ ih => exact ih (takes.root? hroot)

/-- What a growth becomes over a text, it becomes over the text with more behind it, if
anything. -/
theorem Completes.tree_eq_of_append {more : Text} (h : Completes growth text tree)
    (h' : Completes growth (text ++ more) tree') : tree' = tree := by
  induction h generalizing tree' with
  | finish _ finished => exact h'.tree_eq_of_root (Growth.root?_of_finish finished)
  | @read growth grown text rest event tree step takes later ih =>
      rcases next_append_cases step more with step' | ⟨⟨first, tail, rfl⟩, rfl⟩
      · cases h' with
        | finish ended _ => exact nomatch step'.symm.trans ended
        | read again takes' later' =>
            cases step'.symm.trans again
            cases takes.unique takes'
            exact ih later'
      -- The last piece is text that may run on. It changes nothing, so the root is there.
      · cases takes.eq_of_text
        cases later with
        | finish _ finished => exact h'.tree_eq_of_root (Growth.root?_of_finish finished)
        | read step _ _ => exact nomatch step

/-! ### Documents -/

/-- Nothing but the first character of a document can be its byte order mark. -/
theorem withoutByteOrderMark_append {text : Text} (nonempty : text ≠ []) (more : Text) :
    withoutByteOrderMark (text ++ more) = withoutByteOrderMark text ++ more := by
  obtain ⟨c, text, rfl⟩ := List.exists_cons_of_ne_nil nonempty
  unfold withoutByteOrderMark
  split
  · next same => cases same; rfl
  · next other =>
    split
    · next same => cases same; exact absurd rfl (other _)
    · rfl

/-- The beginning of a document keeps its byte order mark. -/
theorem withoutByteOrderMark_part {mark before after : Text}
    (h : withoutByteOrderMark (mark ++ (before ++ after)) = before ++ after) :
    withoutByteOrderMark (mark ++ before) = before := by
  by_cases nothing : mark ++ before = []
  · obtain ⟨rfl, rfl⟩ := List.append_eq_nil_iff.mp nothing
    rfl
  · rw [← List.append_assoc, withoutByteOrderMark_append nothing] at h
    exact List.append_cancel_right h

/-- The empty document has no tree. -/
theorem Element.ne_nil_of_ofDocument (h : Element.ofDocument text = .ok tree) : text ≠ [] := by
  rintro rfl
  cases treeOf_eq_ok_iff.mp h with
  | finish _ finished => exact nomatch finished
  | read step _ _ => exact nomatch step

/-- A document does not become another tree when more is written behind it. -/
theorem Element.ofDocument_append_unique {more : Text} (h : Element.ofDocument text = .ok tree)
    (h' : Element.ofDocument (text ++ more) = .ok tree') : tree' = tree := by
  have nonempty := Element.ne_nil_of_ofDocument h
  unfold Element.ofDocument at h h'
  rw [withoutByteOrderMark_append nonempty, treeOf_eq_ok_iff] at h'
  exact (treeOf_eq_ok_iff.mp h).tree_eq_of_append h'

end Xml

end FetchQuery
