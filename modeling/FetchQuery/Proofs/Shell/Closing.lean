import FetchQuery.Shell.Basic
import FetchQuery.Proofs.Xml.RootEnd

/-!
# When the shell takes a document for closed

The shell takes a buffer for closed when the text of the closing tag stands anywhere in it. The
text may also stand in a comment, in character data, in a value or at the end of an inner element,
so a document can be taken for closed before it is (`closes_of_unfinished_comment`). Where the
beginning of a document is taken for closed, it is read like the document exactly if it ends behind
the root, or the text does not stand in it (`ofDocument_of_closes_iff`).
-/

namespace FetchQuery

namespace Shell

open Text Xml

section

variable {part more : Text} {root : Element}

/-- A buffer is closed by the text of the closing tag, or it can be read. -/
theorem closes_eq_true_iff {buffer : Text} :
    closes buffer = true ↔
      contains closingTag (toLower buffer) = true ∨
        ∃ root, Element.ofDocument buffer = .ok root := by
  rw [closes, Bool.or_eq_true]
  apply or_congr_right
  cases Element.ofDocument buffer with
  | ok root => simp [Except.isOk, Except.toBool]
  | error fault => simp [Except.isOk, Except.toBool]

/-- The shell takes the beginning of a document for closed only where it is read like the document,
exactly if the text of the closing tag stands in it only where it ends behind the root. -/
theorem ofDocument_of_closes_iff (read : Element.ofDocument (part ++ more) = .ok root) :
    (closes part = true → Element.ofDocument part = .ok root) ↔
      (contains closingTag (toLower part) = true → EndsBehindRoot part more) := by
  rw [closes_eq_true_iff, ← Element.ofDocument_part_iff read]
  constructor
  · intro whole marked
    exact whole (.inl marked)
  · rintro whole (marked | ⟨other, readable⟩)
    · exact whole marked
    · rw [Element.ofDocument_append_unique readable read]
      exact readable

end

/-- The text of the closing tag stands in a value before the end of the root. The part that is cut
off is a comment behind the root. -/
theorem ofDocument_of_closes_iff_comment :
    let part : Text := "<fetch><entity name='</fetch>'/></fetch > <!--x-->"
    let more : Text := "<!-- y -->\n"
    let root : Element := ⟨"fetch", [], [⟨"entity", [⟨"name", "</fetch>"⟩], []⟩]⟩
    Element.ofDocument (part ++ more) = .ok root ∧
      (closes part = true → Element.ofDocument part = .ok root) := by
  intro part more root
  have read : Element.ofDocument (part ++ more) = .ok root := by decide +kernel
  have behind : EndsBehindRoot part more :=
    ⟨.closeTag "fetch ", " <!--x-->", by decide +kernel, by decide +kernel⟩
  exact ⟨read, (ofDocument_of_closes_iff read).mpr fun _ => behind⟩

/-- A comment that is not closed yet is taken for the end of the document. -/
theorem closes_of_unfinished_comment :
    let part : Text := "<fetch><!--</fetch>\n"
    let more : Text := "--><entity name='a'/></fetch>\n"
    let root : Element := ⟨"fetch", [], [⟨"entity", [⟨"name", "a"⟩], []⟩]⟩
    Element.ofDocument (part ++ more) = .ok root ∧ closes part = true ∧
      ¬ Element.ofDocument part = .ok root := by
  decide +kernel

end Shell

end FetchQuery
