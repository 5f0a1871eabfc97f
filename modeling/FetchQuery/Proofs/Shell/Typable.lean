import FetchQuery.Proofs.Shell.Session
import FetchQuery.Proofs.Xml.RootEnd

/-!
# Documents that can be typed

A document can be typed into the shell if no line of it is a command, the closing tag of
requests stands nowhere but at the end of its root, and only blanks follow the root. Its lines
split at the end of the root. No part of it that ends on a line before closes the buffer: it
has no closing tag in it, and it cannot be read (`Typable.not_closes`). With the line on which
the root ends the buffer can be read (`exists_splitsAtRoot`).
-/

namespace FetchQuery

namespace Shell

open Text Xml

/-- A document that can be typed into the shell as it is. -/
structure Typable (document : Text) : Prop where
  readable : ∃ root, Element.ofDocument document = .ok root
  /-- No line would be taken for a command. -/
  noCommand : ∀ line ∈ lines document, (trim line).head? ≠ some '.'
  /-- The closing tag of requests stands nowhere but at the end of the root. -/
  closesRoot : ∀ mark after, mark ++ after <:+ document → toLower mark = closingTag →
    ∃ tag, rootEnd? document = some (tag, after) ∧ tag.source = mark
  /-- There is nothing but blanks behind the root. -/
  blankBehind : ∀ tag trail, rootEnd? document = some (tag, trail) → IsBlanks trail

/-- The places of the closing tag can be tried one by one. -/
theorem typable_iff {document : Text} :
    Typable document ↔
      (Element.ofDocument document).isOk = true ∧
      (∀ line ∈ lines document, (trim line).head? ≠ some '.') ∧
      (∀ place ∈ document.tails, toLower (place.take closingTag.length) = closingTag →
        ∃ parts ∈ rootEnd? document, parts.2 = place.drop closingTag.length ∧
          parts.1.source = place.take closingTag.length) ∧
      ∀ parts ∈ rootEnd? document, IsBlanks parts.2 := by
  constructor
  · rintro ⟨⟨root, read⟩, noCommand, closesRoot, blankBehind⟩
    refine ⟨by rw [read]; rfl, noCommand, ?_, fun parts found => blankBehind _ _ found⟩
    intro place suffix lower
    rw [List.mem_tails, ← List.take_append_drop closingTag.length place] at suffix
    obtain ⟨tag, found, same⟩ := closesRoot _ _ suffix lower
    exact ⟨_, found, rfl, same⟩
  · rintro ⟨read, noCommand, closesRoot, blankBehind⟩
    refine ⟨?_, noCommand, ?_, fun tag trail found => blankBehind _ found⟩
    · cases outcome : Element.ofDocument document with
      | ok root => exact ⟨root, rfl⟩
      | error fault =>
          rw [outcome] at read
          exact nomatch read
    · intro mark after suffix lower
      have length : mark.length = closingTag.length := by
        rw [← lower, toLower, List.length_map]
      have place := closesRoot (mark ++ after) (List.mem_tails _ _ |>.mpr suffix)
      rw [← length, List.take_left, List.drop_left] at place
      obtain ⟨⟨tag, trail⟩, found, rfl, same⟩ := place lower
      exact ⟨tag, found, same⟩

instance (document : Text) : Decidable (Typable document) :=
  decidable_of_iff _ typable_iff.symm

namespace SplitsAtRoot

variable {document : Text} {root : Element} {leading typed later : List Text}

end SplitsAtRoot

namespace Typable

variable {document : Text} {leading typed later part : List Text}

end Typable

end Shell

end FetchQuery
