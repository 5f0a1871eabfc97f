import FetchQuery.Proofs.Shell.Session

/-!
# Sessions one after another

A session that ends with its input, behind a line and with nothing in the buffer, leaves no trace.
What is typed after it is answered as if the shell had just been started, whatever was translated,
refused or discarded before (`run_append`).
-/

namespace FetchQuery

namespace Shell

open Bytes Text

variable {first : Bytes}

/-- A session with an empty buffer at the end of its input is followed by the session on what
comes after. -/
theorem Session.ofInput_append (lines : AreLines first)
    (whole : (Session.ofInput first).ending = .endOfInput)
    (empty : (Session.ofInput first).buffer = []) (second : Bytes) :
    Session.ofInput (first ++ second) =
      afterAll (Session.ofInput first).steps (Session.ofInput second) := by
  have continued := ofLines_append second.lines whole
  rw [show (ofLines [] first.lines).buffer = [] from empty] at continued
  rw [Session.ofInput, lines_append_of_areLines lines]
  exact continued

/-- The shell run on two inputs, the first of which ends with nothing in the buffer, prints what it
prints on the first up to the last prompt and then what it prints on the second, and ends like the
run on the second. -/
theorem run_append (settings : Settings) (lines : AreLines first)
    (whole : (Session.ofInput first).ending = .endOfInput)
    (empty : (Session.ofInput first).buffer = []) (second : Bytes) :
    ∃ shown, (run settings first).output = shown ++ "fetchsql> " ∧
      run settings (first ++ second) =
        { exitCode := (run settings second).exitCode
          output := shown ++ (run settings second).output
          errors := (run settings first).errors ++ (run settings second).errors } ∧
      (Session.ofInput (first ++ second)).ending = (Session.ofInput second).ending ∧
      (Session.ofInput (first ++ second)).buffer = (Session.ofInput second).buffer := by
  have joined := Session.ofInput_append lines whole empty second
  refine ⟨(Session.ofInput first).steps.flatMap (Step.output settings), ?_, ?_, ?_, ?_⟩
  · rw [run, Session.report, whole, empty]
    rfl
  · have errors : (run settings first).errors =
        (Session.ofInput first).steps.flatMap (Step.errors settings) := by
      rw [run, Session.report, whole]
      exact List.append_nil _
    rw [errors, run, joined, Session.report_afterAll]
    rfl
  · rw [joined]
    rfl
  · rw [joined]
    rfl

/-- A document that is refused and one that is discarded, before one that is begun and a line that
cannot be decoded. -/
theorem run_append_refused :
    let first := utf8 "\n<fetch>\n<a/></FETCH> \n<fetch\n.clear\n"
    let second := utf8 "<fetch>\n" ++ [0xFF]
    let error : Text := "Error: malformed fetch document: XML error at byte 12: ill-formed document: " ++
      ("expected `</fetch>`, but `</FETCH>` was found\n" : Text)
    AreLines first ∧ (Session.ofInput first).ending = .endOfInput ∧
      (Session.ofInput first).buffer = [] ∧
      (Session.ofInput second).ending = .undecodable ∧
      (run {} first).errors = error ∧
      ∃ shown, (run {} first).output = shown ++ "fetchsql> " ∧
        run {} (first ++ second) =
          { exitCode := 1
            output := shown ++ (run {} second).output
            errors := error ++ "Error: stream did not contain valid UTF-8\n" } := by
  intro first second error
  have lines : AreLines first := .inr (by decide +kernel)
  have whole : (Session.ofInput first).ending = .endOfInput := by decide +kernel
  have empty : (Session.ofInput first).buffer = [] := by decide +kernel
  have undecodable : (Session.ofInput second).ending = .undecodable := by decide +kernel
  have refused : (run {} first).errors = error := by decide +kernel
  obtain ⟨shown, prompted, joined, -⟩ := run_append {} lines whole empty second
  refine ⟨lines, whole, empty, undecodable, refused, shown, prompted, ?_⟩
  rw [joined, refused]
  have ended : (run {} second).exitCode = 1 ∧
      (run {} second).errors = "Error: stream did not contain valid UTF-8\n" := by decide +kernel
  rw [ended.1, ended.2]

end Shell

end FetchQuery
