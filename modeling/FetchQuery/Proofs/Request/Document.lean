import FetchQuery.Proofs.Request.Reading
import FetchQuery.Proofs.Xml.Extension

/-!
# Documents that state requests

A document states a request through its tree alone. So a document that goes on behind a
readable one states the same request, if it states one (`ofDocument_append`). That is what
allows input to be taken as finished as soon as it can be read.
-/

namespace FetchQuery

open Text Xml Outcome

/-- A document states a request when it has a tree and the root states the request. -/
theorem Request.ofDocument_eq_ok_iff {document : Text} {request : Request} :
    Request.ofDocument document = .ok request ↔
      ∃ root, Element.ofDocument document = .ok root ∧ Request.ofElement root = .ok request := by
  rw [Request.ofDocument, bind_eq_ok_iff]
  simp only [mapError_eq_ok_iff]

theorem Request.ofDocument_of_ok {document : Text} {root : Element}
    (h : Element.ofDocument document = .ok root) :
    Request.ofDocument document = Request.ofElement root := by
  rw [Request.ofDocument, h]
  rfl

/-- More text behind a readable document leaves its tree as it is or makes the document
unreadable, and leaves its request as it is if there still is one. -/
theorem ofDocument_append {text : Text} {tree : Element} (h : Element.ofDocument text = .ok tree)
    (more : Text) :
    (Element.ofDocument (text ++ more) = .ok tree ∨
      ∃ fault, Element.ofDocument (text ++ more) = .error fault) ∧
    ∀ request request', Request.ofDocument text = .ok request →
      Request.ofDocument (text ++ more) = .ok request' → request' = request := by
  constructor
  · cases outcome : Element.ofDocument (text ++ more) with
    | ok tree' =>
        rw [Element.ofDocument_append_unique h outcome]
        exact .inl rfl
    | error fault => exact .inr ⟨fault, rfl⟩
  · intro request request' stated stated'
    obtain ⟨root, hroot, hrequest⟩ := Request.ofDocument_eq_ok_iff.mp stated'
    rw [Element.ofDocument_append_unique h hroot, ← Request.ofDocument_of_ok h, stated] at hrequest
    exact (Except.ok.inj hrequest).symm

/-- A comment behind a document leaves everything as it is. -/
theorem ofDocument_append_comment :
    let text : Text := "<fetch><entity name='a'/></fetch>"
    let more : Text := "<!-- -->"
    let tree : Element := ⟨"fetch", [], [⟨"entity", [⟨"name", "a"⟩], []⟩]⟩
    let request : Request := ⟨0, false, ⟨"a", [], none, none, none⟩⟩
    Element.ofDocument text = .ok tree ∧
      (Element.ofDocument (text ++ more) = .ok tree ∨
        ∃ fault, Element.ofDocument (text ++ more) = .error fault) ∧
      Request.ofDocument text = .ok request ∧
      ∃ request', Request.ofDocument (text ++ more) = .ok request' ∧ request' = request := by
  intro text more tree request
  have read : Element.ofDocument text = .ok tree := by decide +kernel
  have stated : Request.ofDocument text = .ok request := by decide +kernel
  have stated' : Request.ofDocument (text ++ more) = .ok request := by decide +kernel
  obtain ⟨kept, unique⟩ := ofDocument_append read more
  exact ⟨read, kept, stated, request, stated', unique request request stated stated'⟩

end FetchQuery
