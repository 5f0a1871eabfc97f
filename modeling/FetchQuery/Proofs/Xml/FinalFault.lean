import FetchQuery.Proofs.Xml.Extension
import FetchQuery.Proofs.Xml.Offset

/-!
# Faults that stay

Some faults only say that a document is not finished. The others are final: a tag that cannot be
read, a closing tag that closes nothing, a second root, a document type declaration without a
name. A document with a final fault has this fault whatever is written behind it
(`ofDocument_append_of_isFinal`), so there is no use in waiting for more of it.

## Implementation notes

A final fault is found on a piece that has an end of its own, so what follows has no part in the
piece, and the offset of a place counts only what stands before it.
-/

namespace FetchQuery

namespace Xml

open Text Outcome

/-- A fault of a construct that is finished. Unknown markup is not among them, as it may be the
beginning of known markup. -/
def MarkupFault.isFinal : MarkupFault → Bool
  | doctypeWithoutName => true
  | wrongClosingTag _ _ => true
  | strayClosingTag _ => true
  | _ => false

/-- A fault that does not go away with what is written behind the document. -/
def DocumentFault.isFinal : DocumentFault → Bool
  | markup _ fault => fault.isFinal
  | tag _ _ => true
  | secondRoot _ => true
  | _ => false

/-! ### Pieces that cannot be read -/

section

variable {text : Text} {fault : MarkupFault}

theorem eq_of_ofCut_fault {make : Text → Event} {missing : MarkupFault}
    {cut : Option (Text × Text)} (h : Step.ofCut make missing cut = .fault fault) :
    fault = missing := by
  cases cut with
  | none => exact (Step.fault.inj h).symm
  | some parts => cases h

/-- A declaration without a name ends where it ends. -/
theorem doctypeStep_append_of_isFinal (h : doctypeStep text = .fault fault)
    (final : fault.isFinal = true) (more : Text) : doctypeStep (text ++ more) = .fault fault := by
  unfold doctypeStep at h
  split at h
  · cases h
    cases final
  · next content rest cut =>
    have whole : text ++ more = content ++ '>' :: (rest ++ more) := by
      rw [eq_of_cutBalanced? cut, List.append_assoc, List.cons_append]
    rw [doctypeStep, whole, cutBalanced?_replace (rest ++ more) cut]
    split at h
    · next keyword =>
      split at h
      · next unnamed =>
        cases h
        simp only [keyword, unnamed, if_true]
      · cases h
    · cases h
      cases final

theorem declarationStep_append_of_isFinal (h : declarationStep text = .fault fault)
    (final : fault.isFinal = true) (more : Text) :
    declarationStep (text ++ more) = .fault fault := by
  unfold declarationStep at h
  split at h
  · cases eq_of_ofCut_fault h
    cases final
  · cases h
    cases final
  · split at h
    · cases eq_of_ofCut_fault h
      cases final
    · cases h
      cases final
  · exact doctypeStep_append_of_isFinal h final more
  · exact doctypeStep_append_of_isFinal h final more
  · cases h
    cases final

theorem markupStep_append_of_isFinal (h : markupStep text = .fault fault)
    (final : fault.isFinal = true) (more : Text) : markupStep (text ++ more) = .fault fault := by
  unfold markupStep at h
  split at h
  · exact declarationStep_append_of_isFinal h final more
  · unfold instructionStep at h
    split at h
    · cases h
      cases final
    · cases eq_of_ofCut_fault h
      cases final
  · cases eq_of_ofCut_fault h
    cases final
  · cases eq_of_ofCut_fault h
    cases final

/-- A piece with a final fault has it whatever follows. -/
theorem next_append_of_isFinal (h : next text = .fault fault) (final : fault.isFinal = true)
    (more : Text) : next (text ++ more) = .fault fault := by
  have blanks := List.takeWhile_append_dropWhile (p := isBlank) (l := text)
  rw [← blanks, List.append_assoc, next_blanks (isBlanks_takeWhile text)]
  unfold next at h
  split at h
  · cases h
  · next rest start =>
    rw [show text.dropWhile isBlank = '<' :: rest from start, List.cons_append, next_markup]
    exact markupStep_append_of_isFinal h final more
  · unfold referenceStep at h
    split at h
    · cases h
    · cases h
      cases final
  · cases h

end

/-! ### Documents -/

namespace Growth

variable {growth : Growth} {document text more : Text} {fault : DocumentFault}

/-- What is missing at the end of a document may still come. -/
theorem not_isFinal_of_finish (h : growth.finish = .error fault) : fault.isFinal = false := by
  rcases growth.finish_cases with ⟨_, _, -, ended⟩ | ⟨-, -, ended⟩ | ⟨_, -, -, ended⟩
  · cases h.symm.trans ended
    rfl
  · cases h.symm.trans ended
    rfl
  · cases h.symm.trans ended

theorem not_isFinal_of_readOn_nil (h : growth.readOn document [] = .error fault) :
    fault.isFinal = false := by
  rw [readOn_of_finished rfl] at h
  exact not_isFinal_of_finish h

/-- A final fault that comes of reading on comes of it with more text, too. -/
theorem readOn_append_of_isFinal (h : growth.readOn document text = .error fault)
    (final : fault.isFinal = true) :
    growth.readOn (document ++ more) (text ++ more) = .error fault := by
  induction text using scan.induct generalizing growth with
  | case1 text step =>
      rw [readOn_of_finished step] at h
      cases (not_isFinal_of_finish h).symm.trans final
  | case2 text markupFault step =>
      rw [readOn_of_fault step] at h
      cases h
      rw [readOn_of_fault (next_append_of_isFinal step final more), offset_append_append]
  | case3 text event rest step ih =>
      rw [readOn_of_event step] at h
      rcases next_append_cases step more with step' | ⟨⟨first, tail, rfl⟩, rfl⟩
      · have same : growth.read (document ++ more) ⟨text ++ more, event⟩ =
            growth.read document ⟨text, event⟩ :=
          growth.read_eq_of_offset_eq event (offset_append_append document text more)
        rw [readOn_of_event step', same]
        cases outcome : growth.read document ⟨text, event⟩ with
        | error early =>
            rw [outcome] at h
            exact h
        | ok grown =>
            rw [outcome] at h
            exact ih h
      -- Behind text at the very end there is nothing in which the fault could be.
      · cases (not_isFinal_of_readOn_nil h).symm.trans final

end Growth

/-- A document with a final fault has this fault whatever is written behind it. -/
theorem ofDocument_append_of_isFinal {document : Text} {fault : DocumentFault}
    (h : Element.ofDocument document = .error fault) (final : fault.isFinal = true) (more : Text) :
    Element.ofDocument (document ++ more) = .error fault := by
  have nonempty : document ≠ [] := by
    rintro rfl
    cases (Growth.not_isFinal_of_readOn_nil h).symm.trans final
  rw [Element.ofDocument, withoutByteOrderMark_append nonempty]
  exact Growth.readOn_append_of_isFinal h final

/-- A closing tag that comes too early, in a document in which two tags are open. -/
theorem ofDocument_append_of_isFinal_wrongClosingTag :
    let document : Text := "\uFEFFt<a>\n<!--</b>--><é>&x;</a>"
    let fault : DocumentFault := .markup 23 (.wrongClosingTag "é" "a")
    let more : Text := "</é></a><"
    Element.ofDocument document = .error fault ∧ fault.isFinal = true ∧
      Element.ofDocument (document ++ more) = .error fault := by
  intro document fault more
  have read : Element.ofDocument document = .error fault := by decide +kernel
  exact ⟨read, rfl, ofDocument_append_of_isFinal read rfl more⟩

end Xml

end FetchQuery
