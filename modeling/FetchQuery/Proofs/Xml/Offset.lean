import FetchQuery.Proofs.Outcome
import FetchQuery.Proofs.Xml.Completion

/-!
# Where faults are

Where a piece stands in a document matters for nothing but the offset in a fault of its markup.
So what comes of reading on is the same in two documents, with offsets changed from those of the
one to those of the other (`Growth.readOn_eq_mapError`).
-/

namespace FetchQuery

namespace Xml

open Text Outcome

/-! ### Offsets -/

/-- The offset of a place is what stands before it. -/
theorem offset_append (before place : Text) :
    offset (before ++ place) place = byteLength before := by
  simp [offset]

/-- Text behind a place does not change its offset. -/
theorem offset_append_append (document place more : Text) :
    offset (document ++ more) (place ++ more) = offset document place := by
  simp [offset, Nat.add_sub_add_right]

/-- A fault with its offset changed, if it has one. -/
def DocumentFault.relocate (move : Nat → Nat) : DocumentFault → DocumentFault
  | markup offset fault => markup (move offset) fault
  | fault => fault

theorem DocumentFault.relocate_id (fault : DocumentFault) : fault.relocate id = fault := by
  cases fault <;> rfl

/-! ### Reading -/

namespace Growth

variable {move : Nat → Nat} {growth : Growth} {element : Element} {content : Text}

theorem elementOfTag_eq_mapError :
    elementOfTag content = (elementOfTag content).mapError (.relocate move) := by
  unfold elementOfTag
  cases Element.ofTag content with
  | error fault => rfl
  | ok element => rfl

theorem attach_eq_mapError :
    growth.attach element = (growth.attach element).mapError (.relocate move) := by
  obtain ⟨names, unfinished, root?⟩ := growth
  cases unfinished with
  | cons parent outer => rfl
  | nil =>
      cases root? with
      | none => rfl
      | some root => rfl

theorem finishElement_eq_mapError :
    growth.finishElement = growth.finishElement.mapError (.relocate move) := by
  obtain ⟨names, unfinished, root?⟩ := growth
  cases unfinished with
  | nil => rfl
  | cons element outer => exact attach_eq_mapError

theorem finish_eq_mapError : growth.finish = growth.finish.mapError (.relocate move) := by
  obtain ⟨names, unfinished, root?⟩ := growth
  cases unfinished with
  | cons element outer => rfl
  | nil =>
      cases root? with
      | none => rfl
      | some root => rfl

/-- Only the offset of a fault depends on where a piece stands. -/
theorem read_eq_mapError {document place document' place' : Text} (event : Event)
    (moved : offset document' place' = move (offset document place)) :
    growth.read document' ⟨place', event⟩ =
      (growth.read document ⟨place, event⟩).mapError (.relocate move) := by
  cases event with
  | openTag content =>
      simp only [read, mapError_bind, ← elementOfTag_eq_mapError]
      rfl
  | emptyTag content =>
      simp only [read, mapError_bind, ← elementOfTag_eq_mapError, ← attach_eq_mapError]
  | closeTag content =>
      simp only [read, mapError_bind, ← finishElement_eq_mapError, moved]
      cases closeName growth.names (closingName content) with
      | error fault => rfl
      | ok names => rfl
  | _ => rfl

/-- A piece is read in the same way at all places with one offset. -/
theorem read_eq_of_offset_eq {document place document' place' : Text} (event : Event)
    (same : offset document' place' = offset document place) :
    growth.read document' ⟨place', event⟩ = growth.read document ⟨place, event⟩ := by
  have moved : growth.read document' ⟨place', event⟩ =
      (growth.read document ⟨place, event⟩).mapError (.relocate id) := read_eq_mapError event same
  rw [moved]
  cases growth.read document ⟨place, event⟩ with
  | error fault => rw [Except.mapError, DocumentFault.relocate_id]
  | ok grown => rfl

/-- Reading on in another document has the same outcome, up to the offsets of places. -/
theorem readOn_eq_mapError {document document' text : Text}
    (moved : ∀ place, place <:+ text → offset document' place = move (offset document place)) :
    growth.readOn document' text = (growth.readOn document text).mapError (.relocate move) := by
  induction text using scan.induct generalizing growth with
  | case1 text step =>
      rw [readOn_of_finished step, readOn_of_finished step]
      exact finish_eq_mapError
  | case2 text fault step =>
      rw [readOn_of_fault step, readOn_of_fault step, moved text (List.suffix_refl text)]
      rfl
  | case3 text event rest step ih =>
      have behind : rest <:+ text := ⟨_, (eq_of_next step).symm⟩
      rw [readOn_of_event step, readOn_of_event step, mapError_bind,
        ← read_eq_mapError event (moved text (List.suffix_refl text))]
      exact bind_congr fun grown => ih fun place inside => moved place (inside.trans behind)

end Growth

end Xml

end FetchQuery
