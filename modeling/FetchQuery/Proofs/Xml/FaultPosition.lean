import FetchQuery.Proofs.Xml.Offset
import FetchQuery.Proofs.Xml.RootEnd

/-!
# What stands before a fault

The offset in a fault of the markup parts a document in two. What stands before it can be read: it
is a document, or only its end is missing. With anything behind it but blanks there is a fault at
the offset again (`exists_isReadable_of_markup`). So the offset is the last place up to which the
document can be read.

## Implementation notes

A reading stops in front of a piece that starts with a mark (`Growth.StopsAt`), and what has been
read is read in the same pieces with any beginning of the rest behind it (`Growth.exists_stopsAt`).
-/

namespace FetchQuery

namespace Xml

open Text Outcome

/-! ### Pieces that start with a mark -/

/-- A fault, or a piece that is no text. -/
def Step.IsMarked : Step → Prop
  | .finished => False
  | .event piece _ => ∀ first more, piece ≠ .text first more
  | .fault _ => True

section

variable {text more : Text}

theorem isMarked_ofCut {make : Text → Event} (fault : MarkupFault) (cut : Option (Text × Text))
    (h : ∀ content first more, make content ≠ .text first more) :
    (Step.ofCut make fault cut).IsMarked := by
  cases cut with
  | none => trivial
  | some parts => exact h parts.1

theorem startTag_ne_text (content : Text) (first : Char) (more : Text) :
    startTag content ≠ .text first more := by
  unfold startTag
  split
  · exact nofun
  · exact nofun

theorem isMarked_doctypeStep (text : Text) : (doctypeStep text).IsMarked := by
  unfold doctypeStep
  split
  · trivial
  · split
    · split
      · trivial
      · exact nofun
    · trivial

theorem isMarked_declarationStep (text : Text) : (declarationStep text).IsMarked := by
  unfold declarationStep
  split
  · exact isMarked_ofCut _ _ nofun
  · trivial
  · split
    · exact isMarked_ofCut _ _ nofun
    · trivial
  · exact isMarked_doctypeStep _
  · exact isMarked_doctypeStep _
  · trivial

theorem isMarked_instructionStep (text : Text) : (instructionStep text).IsMarked := by
  unfold instructionStep
  split
  · trivial
  · exact isMarked_ofCut _ _ nofun

theorem isMarked_markupStep (text : Text) : (markupStep text).IsMarked := by
  unfold markupStep
  split
  · exact isMarked_declarationStep _
  · exact isMarked_instructionStep _
  · exact isMarked_ofCut _ _ nofun
  · exact isMarked_ofCut _ _ startTag_ne_text

theorem isMarked_referenceStep (text : Text) : (referenceStep text).IsMarked := by
  unfold referenceStep
  split
  · exact nofun
  · trivial

/-- At a mark there is a fault or a piece that is no text. -/
theorem isMarked_next (apart : IsApart (dropBlanks text)) (nonblank : dropBlanks text ≠ []) :
    (next text).IsMarked := by
  unfold next
  split
  · next blank => exact absurd blank nonblank
  · exact isMarked_markupStep _
  · exact isMarked_referenceStep _
  · next first rest notMarkup notReference start =>
    rw [start] at apart
    rcases apart first rfl with isMarkup | isReference
    · exact absurd isMarkup notMarkup
    · exact absurd isReference notReference

/-- A fault stands at a mark. -/
theorem apart_of_next_fault {fault : MarkupFault} (h : next text = .fault fault) :
    IsApart (dropBlanks text) := by
  unfold next at h
  split at h
  · cases h
  · next start =>
    rw [start]
    simp [IsApart]
  · next start =>
    rw [start]
    simp [IsApart]
  · cases h

theorem IsApart.of_prefix (h : IsApart text) (part : more <+: text) : IsApart more := by
  obtain ⟨rest, rfl⟩ := part
  cases more with
  | nil => exact nofun
  | cons c more => exact h

/-- Blanks that stand before something else do not depend on what follows. -/
theorem dropBlanks_append_of_ne_nil (h : dropBlanks text ≠ []) (more : Text) :
    dropBlanks (text ++ more) = dropBlanks text ++ more := by
  have whole := List.takeWhile_append_dropWhile (p := isBlank) (l := text)
  obtain ⟨first, rest, start⟩ := List.exists_cons_of_ne_nil h
  have stop : ∀ c ∈ (first :: rest ++ more).head?, isBlank c = false := by
    rintro c ⟨⟩
    exact isBlank_of_dropBlanks start
  conv_lhs =>
    rw [← whole, show text.dropWhile isBlank = first :: rest from start, List.append_assoc]
  rw [dropBlanks_append_of_stop (isBlanks_takeWhile text) stop, start]

end

/-! ### Where reading stops -/

namespace Growth

variable {growth : Growth} {document text place rest : Text} {event : Event} {position : Nat}
  {fault : MarkupFault}

/-- There is no piece at a place, or a closing tag that does not close the innermost open tag. -/
inductive StopsAt (growth : Growth) (place : Text) : Prop
  | noPiece {fault : MarkupFault} (step : next place = .fault fault)
  | wrongTag {content rest : Text} {fault : MarkupFault}
      (step : next place = .event (.closeTag content) rest)
      (wrong : closeName growth.names (closingName content) = .error fault)

/-- Only a closing tag that closes nothing is a fault of the markup. -/
theorem stopsAt_of_read (step : next place = .event event rest)
    (h : growth.read document ⟨place, event⟩ = .error (.markup position fault)) :
    growth.StopsAt place ∧ position = offset document place := by
  rcases read_error_cases h with ⟨name, given, same⟩ | ⟨name, same⟩ |
    ⟨content, given, isClosing, wrong, same⟩ | ⟨content, names, -, -, -, same⟩
  · cases same
  · cases same
  · cases same
    have closing : event = .closeTag content := isClosing
    subst closing
    exact ⟨.wrongTag step wrong, rfl⟩
  · cases same

theorem read_of_wrongTag {content : Text}
    (wrong : closeName growth.names (closingName content) = .error fault) :
    growth.read document ⟨place, .closeTag content⟩ =
      .error (.markup (offset document place) fault) := by
  simp only [read, wrong]
  rfl

theorem StopsAt.apart (h : growth.StopsAt place) : IsApart (dropBlanks place) := by
  cases h with
  | noPiece step => exact apart_of_next_fault step
  | wrongTag step _ =>
      rcases apart_of_next step with apart | ⟨⟨first, tail, same⟩, -⟩
      · exact apart
      · cases same

/-- Reading stops at a place as soon as anything of the piece there can be seen. -/
theorem StopsAt.readOn (h : growth.StopsAt place) (part : text <+: place)
    (nonblank : dropBlanks text ≠ []) :
    ∃ fault, growth.readOn document text = .error (.markup (offset document text) fault) := by
  obtain ⟨more, rfl⟩ := part
  have apart : IsApart (dropBlanks text) := by
    apply h.apart.of_prefix
    rw [dropBlanks_append_of_ne_nil nonblank]
    exact List.prefix_append _ more
  have marked := isMarked_next apart nonblank
  cases step : next text with
  | finished =>
      rw [step] at marked
      exact marked.elim
  | fault fault => exact ⟨fault, readOn_of_fault step⟩
  | event event rest =>
      rw [step] at marked
      -- The whole piece is there, so it is the closing tag.
      have whole : next (text ++ more) = .event event (rest ++ more) :=
        next_append step (.inl marked)
      cases h with
      | noPiece step' => cases step'.symm.trans whole
      | @wrongTag content tail fault step' wrong =>
          cases step'.symm.trans whole
          refine ⟨fault, ?_⟩
          rw [readOn_of_event step, read_of_wrongTag wrong]
          rfl

/-- What is read before a fault of the markup is read in the same way with any beginning of the
rest behind it. -/
theorem exists_stopsAt (h : growth.readOn document text = .error (.markup position fault)) :
    ∃ before place grown, text = before ++ place ∧ position = offset document place ∧
      StopsAt grown place ∧ ∀ other part, part <+: place →
        growth.readOn other (before ++ part) = grown.readOn other part := by
  induction text using scan.induct generalizing growth with
  | case1 text step =>
      rw [readOn_of_finished step] at h
      rcases growth.finish_cases with ⟨_, _, -, ended⟩ | ⟨-, -, ended⟩ | ⟨_, -, -, ended⟩
      · cases h.symm.trans ended
      · cases h.symm.trans ended
      · cases h.symm.trans ended
  | case2 text given step =>
      rw [readOn_of_fault step] at h
      cases h
      exact ⟨[], text, growth, rfl, rfl, .noPiece step, fun _ _ _ => rfl⟩
  | case3 text event rest step ih =>
      rw [readOn_of_event step] at h
      rcases bind_eq_error_iff.mp h with early | ⟨middle, read, later⟩
      · obtain ⟨stops, same⟩ := stopsAt_of_read step early
        exact ⟨[], text, growth, rfl, same, stops, fun _ _ _ => rfl⟩
      · obtain ⟨before, place, grown, rfl, same, stops, again⟩ := ih later
        refine ⟨text.takeWhile isBlank ++ event.source ++ before, place, grown, ?_, same, stops, ?_⟩
        · rw [List.append_assoc]
          exact eq_of_next step
        · intro other part inside
          have ended : IsApart (dropBlanks text) ∨ IsApart (before ++ part) := by
            apply (apart_of_next step).imp id
            rintro ⟨-, apart⟩
            exact apart.of_prefix ((List.prefix_append_right_inj before).mpr inside)
          have takes : growth.Takes event middle := takes_iff.mpr read
          rw [List.append_assoc, readOn_of_event (next_replace step ended), takes,
            ← again other part inside]
          rfl

end Growth

/-! ### Documents -/

/-- A text in which nothing is wrong up to its end: it is a document, or only its end is missing. -/
def IsReadable (text : Text) : Prop :=
  (∃ tree, Element.ofDocument text = .ok tree) ∨
    (∃ name, Element.ofDocument text = .error (.neverClosed name)) ∨
      Element.ofDocument text = .error .noRoot

theorem isReadable_of_finish {text : Text} {growth : Growth}
    (h : Element.ofDocument text = growth.finish) : IsReadable text := by
  rcases growth.finish_cases with ⟨element, _, -, ended⟩ | ⟨-, -, ended⟩ | ⟨root, -, -, ended⟩
  · exact .inr (.inl ⟨element.name, h.trans ended⟩)
  · exact .inr (.inr (h.trans ended))
  · exact .inl ⟨root, h.trans ended⟩

/-- A document with a fault of its markup can be read up to the offset of the fault, which is a
place between two characters, and no further: any more of it that is not blank has a fault at this
offset. -/
theorem exists_isReadable_of_markup {input : Text} {position : Nat} {fault : MarkupFault}
    (h : Element.ofDocument input = .error (.markup position fault)) :
    position ≤ byteLength (withoutByteOrderMark input) ∧
    ∃ mark before after, input = mark ++ before ++ after ∧
      withoutByteOrderMark input = before ++ after ∧ byteLength before = position ∧
      IsReadable (mark ++ before) ∧
      ∀ more, more <+: after → dropBlanks more ≠ [] →
        ∃ other, Element.ofDocument (mark ++ before ++ more) = .error (.markup position other) := by
  obtain ⟨mark, whole, -⟩ := eq_append_withoutByteOrderMark input
  obtain ⟨before, after, grown, split, place, stops, again⟩ := Growth.exists_stopsAt h
  have located : byteLength before = position := by
    rw [place, split, offset_append]
  rw [split] at whole
  have shown (more : Text) (part : more <+: after) :
      Element.ofDocument (mark ++ before ++ more) = grown.readOn (before ++ more) more := by
    obtain ⟨rest, rfl⟩ := part
    rw [whole, ← List.append_assoc before] at split
    rw [Element.ofDocument, List.append_assoc, withoutByteOrderMark_part split]
    exact again (before ++ more) more (List.prefix_append more rest)
  rw [← List.append_assoc] at whole
  refine ⟨?_, mark, before, after, whole, split, located, ?_, ?_⟩
  · rw [split, byteLength_append, located]
    exact Nat.le_add_right position _
  · have cut := shown [] List.nil_prefix
    rw [List.append_nil, Growth.readOn_of_finished rfl] at cut
    exact isReadable_of_finish cut
  · intro more part nonblank
    obtain ⟨other, stopped⟩ : ∃ other, grown.readOn (before ++ more) more =
        .error (.markup (offset (before ++ more) more) other) :=
      stops.readOn part nonblank
    rw [offset_append, located] at stopped
    exact ⟨other, (shown more part).trans stopped⟩

/-- The byte order mark is not counted, nor the blanks before the second reference. -/
theorem exists_isReadable_of_markup_reference :
    let input : Text := "\uFEFFé<a k='>'/>\n &x;\t&y</a>"
    let position := 17
    Element.ofDocument input = .error (.markup position .referenceNotClosed) ∧
      position ≤ byteLength (withoutByteOrderMark input) ∧
      ∃ mark before after, input = mark ++ before ++ after ∧
        withoutByteOrderMark input = before ++ after ∧ byteLength before = position ∧
        IsReadable (mark ++ before) ∧
        ∀ more, more <+: after → dropBlanks more ≠ [] → ∃ other,
          Element.ofDocument (mark ++ before ++ more) = .error (.markup position other) := by
  intro input position
  have read : Element.ofDocument input = .error (.markup position .referenceNotClosed) := by
    decide +kernel
  exact ⟨read, exists_isReadable_of_markup read⟩

end Xml

end FetchQuery
