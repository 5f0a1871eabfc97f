import FetchQuery.Proofs.Xml.Extension
import FetchQuery.Proofs.Xml.Offset

/-!
# Asides leave no trace

Behind a piece of a document that is no text, a comment, a section of character data, a processing
instruction, a document type declaration or a reference may be inserted. The outcome is the same,
tree or fault, but for the offsets of faults behind the insertion (`ofDocument_insert_aside`). The
document need not have a tree.

## Implementation notes

What stands before the insertion is read in the same pieces with anything behind it
(`ReadInPieces`), and an aside is a piece of its own that changes no growth. Behind text there is no
such place: text in front of an insertion may go on behind it.
-/

namespace FetchQuery

namespace Xml

open Text Outcome

/-- A text that is markup to its end, where it ends with a piece that is no text. Its tags need not
be readable, nor match each other. -/
structure EndsInMarkup (text : Text) : Prop where
  noFault : (scan text).fault? = none
  /-- From the place of the last piece on there is nothing but the piece. -/
  last : ∃ piece ∈ (scan text).pieces.getLast?,
    (∀ first more, piece.event ≠ .text first more) ∧ dropBlanks piece.place = piece.event.source

/-- A text that is read in the same pieces whatever follows it. -/
inductive ReadInPieces : Text → Prop
  | nil : ReadInPieces []
  | piece {text rest : Text} {event : Event}
      (step : ∀ more, next (text ++ more) = .event event (rest ++ more))
      (tail : ReadInPieces rest) : ReadInPieces text

section

variable {text rest : Text} {event : Event}

/-- A piece and the rest are what the text is without leading blanks. -/
theorem dropBlanks_eq_of_next (h : next text = .event event rest) :
    dropBlanks text = event.source ++ rest := by
  have whole := eq_of_next h
  have blanks := List.takeWhile_append_dropWhile (p := isBlank) (l := text)
  rw [List.append_assoc] at whole
  exact List.append_cancel_left (blanks.trans whole)

theorem scan_nil : scan [] = ⟨[], none⟩ :=
  scan_of_finished rfl

theorem EndsInMarkup.readInPieces (h : EndsInMarkup text) : ReadInPieces text := by
  induction text using scan.induct with
  | case1 text step =>
      obtain ⟨-, piece, isLast, -⟩ := h
      rw [scan_of_finished step] at isLast
      cases isLast
  | case2 text fault step =>
      have noFault := h.noFault
      rw [scan_of_fault step] at noFault
      cases noFault
  | case3 text event rest step ih =>
      obtain ⟨noFault, piece, isLast, noText, ends⟩ := h
      rw [scan_of_event step] at noFault isLast
      cases later : (scan rest).pieces with
      | nil =>
          rw [later, List.getLast?_singleton, Option.mem_some_iff] at isLast
          subst isLast
          have ended : rest = [] := by
            rw [dropBlanks_eq_of_next step] at ends
            simpa using ends
          subst ended
          exact .piece (fun more => next_append step (.inl noText)) .nil
      | cons first others =>
          have nonempty : rest ≠ [] := by
            rintro rfl
            rw [scan_nil] at later
            cases later
          have inner : EndsInMarkup rest := by
            refine ⟨noFault, piece, ?_, noText, ends⟩
            rw [later] at isLast ⊢
            exact isLast
          exact .piece (fun more => next_append step (.inr nonempty)) (ih inner)

end

/-- An offset when a number of bytes is inserted at a place. -/
def shiftFrom (place count offset : Nat) : Nat :=
  if place ≤ offset then offset + count else offset

namespace Growth

variable {growth : Growth} {aside : Text}

/-- Reading on is not changed by an aside that comes next. -/
theorem readOn_aside (haside : IsAside aside) (document after : Text) :
    growth.readOn document (aside ++ after) = growth.readOn document after := by
  obtain ⟨event, step, takes⟩ := haside.piece
  rw [readOn_of_event (step after), takes growth document (aside ++ after)]
  rfl

/-- Reading on is changed by an aside that comes later only in the offsets behind it. -/
theorem readOn_insert_aside (haside : IsAside aside) (after : Text) {text : Text}
    (h : ReadInPieces text) (before : Text) :
    growth.readOn (before ++ (text ++ (aside ++ after))) (text ++ (aside ++ after)) =
      (growth.readOn (before ++ (text ++ after)) (text ++ after)).mapError
        (.relocate (shiftFrom (byteLength (before ++ text)) (byteLength aside))) := by
  induction h generalizing growth before with
  | nil =>
      rw [List.nil_append, List.nil_append, List.append_nil, readOn_aside haside]
      apply readOn_eq_mapError
      rintro place ⟨read, rfl⟩
      have early : byteLength before ≤ byteLength before + byteLength read := Nat.le_add_right _ _
      rw [← List.append_assoc before read place, offset_append, byteLength_append, shiftFrom,
        if_pos early, ← List.append_assoc aside, ← List.append_assoc before, offset_append]
      simp only [byteLength_append]
      omega
  | @piece text rest event step tail ih =>
      have nonempty : text ≠ [] := by
        rintro rfl
        cases step []
      obtain ⟨lead, rfl⟩ : ∃ lead, text = lead ++ rest := by
        have whole := eq_of_next (step [])
        rw [List.append_nil, List.append_nil] at whole
        exact ⟨_, whole⟩
      have moved : offset (before ++ (lead ++ rest ++ (aside ++ after)))
            (lead ++ rest ++ (aside ++ after)) =
          shiftFrom (byteLength (before ++ (lead ++ rest))) (byteLength aside)
            (offset (before ++ (lead ++ rest ++ after)) (lead ++ rest ++ after)) := by
        have positive := byteLength_pos nonempty
        have early : ¬ byteLength (before ++ (lead ++ rest)) ≤ byteLength before := by
          rw [byteLength_append]
          omega
        rw [offset_append, offset_append, shiftFrom, if_neg early]
      rw [readOn_of_event (step _), readOn_of_event (step _), mapError_bind,
        ← read_eq_mapError event moved]
      apply bind_congr
      intro grown
      simpa only [List.append_assoc] using @ih grown (before ++ lead)

end Growth

/-- An aside behind the beginning of a document, where that ends with a piece that is no text,
leaves the outcome as it is. Only offsets from there on are larger, by the length of the aside. -/
theorem ofDocument_insert_aside {before aside : Text}
    (ended : EndsInMarkup (withoutByteOrderMark before)) (haside : IsAside aside) (after : Text) :
    Element.ofDocument (before ++ aside ++ after) =
      (Element.ofDocument (before ++ after)).mapError
        (.relocate (shiftFrom (byteLength (withoutByteOrderMark before)) (byteLength aside))) := by
  have nonempty : before ≠ [] := by
    rintro rfl
    obtain ⟨-, piece, isLast, -⟩ := ended
    rw [show withoutByteOrderMark [] = [] from rfl, scan_nil] at isLast
    cases isLast
  rw [List.append_assoc, Element.ofDocument, Element.ofDocument,
    withoutByteOrderMark_append nonempty, withoutByteOrderMark_append nonempty]
  exact Growth.readOn_insert_aside haside after ended.readInPieces []

/-- What looks like a tag in an instruction closes nothing, and a fault behind it moves. -/
theorem ofDocument_insert_aside_instruction :
    let before : Text := "\uFEFFt<a x='>'>"
    let aside : Text := "<?" ++ (("</a>" : Text) ++ "?>")
    let after : Text := "u</b>"
    let fault : MarkupFault := .wrongClosingTag "a" "b"
    EndsInMarkup (withoutByteOrderMark before) ∧ IsAside aside ∧
      Element.ofDocument (before ++ after) = .error (.markup 11 fault) ∧
      Element.ofDocument (before ++ aside ++ after) = .error (.markup 19 fault) := by
  intro before aside after fault
  have ended : EndsInMarkup (withoutByteOrderMark before) := by
    refine ⟨by decide +kernel, ⟨"<a x='>'>", .openTag "a x='>'"⟩, by decide +kernel, nofun, ?_⟩
    decide +kernel
  have haside : IsAside aside := .instruction (by decide +kernel)
  have read : Element.ofDocument (before ++ after) = .error (.markup 11 fault) := by
    decide +kernel
  refine ⟨ended, haside, read, ?_⟩
  rw [ofDocument_insert_aside ended haside, read]
  have place : byteLength (withoutByteOrderMark before) = 10 := by decide +kernel
  have count : byteLength aside = 8 := by decide +kernel
  rw [place, count]
  rfl

end Xml

end FetchQuery
