import FetchQuery.Shell.Session
import FetchQuery.Proofs.Text.Lines

/-!
# Sessions in parts

A session that reaches the end of its input goes on as if it had begun with the buffer that
it left (`Session.ofLines_append`). What a line does to a session is its reaction
(`reacts_react`), and lines that are neither commands nor dropped are kept until the buffer
closes a document.
-/

namespace FetchQuery

namespace Shell

open Text

/-! ### Reactions -/

section

variable {buffer line : Text}

/-- A blank line before a document is dropped. -/
theorem react_of_blank (blank : trim line = []) : react [] line = .ignore := by
  rw [react, blank]
  rfl

/-- Any other line that is no command is part of a document. -/
theorem react_of_line (noCommand : (trim line).head? ≠ some '.')
    (begun : trim line ≠ [] ∨ buffer ≠ []) :
    react buffer line =
      if closes (buffer ++ line) then .translate (buffer ++ line) else .keep := by
  have kept : ((trim line).isEmpty && buffer.isEmpty) = false := by
    rw [Bool.and_eq_false_iff]
    exact begun.imp List.isEmpty_eq_false_iff.mpr List.isEmpty_eq_false_iff.mpr
  rw [react, if_neg noCommand, kept]
  rfl

end

/-- What the shell does about a line, case by case. -/
inductive Reacts (buffer line : Text) : Reaction → Prop
  | help (dot : (trim line).head? = some '.') (word : trim line = ".help") :
      Reacts buffer line .explain
  | go (dot : (trim line).head? = some '.') (word : trim line = ".go") :
      Reacts buffer line (.translate buffer)
  | clear (dot : (trim line).head? = some '.') (word : trim line = ".clear") :
      Reacts buffer line (.discard buffer)
  | leave (dot : (trim line).head? = some '.') (word : trim line = ".exit" ∨ trim line = ".quit") :
      Reacts buffer line .leave
  | reject (dot : (trim line).head? = some '.') (unknown : commands.lookup (trim line) = none) :
      Reacts buffer line (.reject (trim line))
  | ignore (blank : trim line = []) (empty : buffer = []) : Reacts buffer line .ignore
  | translate (noCommand : (trim line).head? ≠ some '.') (begun : trim line ≠ [] ∨ buffer ≠ [])
      (closed : closes (buffer ++ line) = true) : Reacts buffer line (.translate (buffer ++ line))
  | keep (noCommand : (trim line).head? ≠ some '.') (begun : trim line ≠ [] ∨ buffer ≠ [])
      (unclosed : closes (buffer ++ line) = false) : Reacts buffer line .keep

theorem reacts_react (buffer line : Text) : Reacts buffer line (react buffer line) := by
  by_cases dot : (trim line).head? = some '.'
  · rw [react, if_pos dot]
    cases known : commands.lookup (trim line) with
    | none => exact .reject dot known
    | some command =>
        have member : (trim line, command) ∈ commands := by
          obtain ⟨before, after, split, -⟩ := List.lookup_eq_some_iff.mp known
          rw [split]
          exact List.mem_append_right before List.mem_cons_self
        simp only [commands, List.mem_cons, Prod.mk.injEq, List.not_mem_nil, or_false] at member
        rcases member with ⟨word, rfl⟩ | ⟨word, rfl⟩ | ⟨word, rfl⟩ | ⟨word, rfl⟩ | ⟨word, rfl⟩
        · exact .help dot word
        · exact .go dot word
        · exact .clear dot word
        · exact .leave dot (.inl word)
        · exact .leave dot (.inr word)
  · by_cases dropped : trim line = [] ∧ buffer = []
    · obtain ⟨blank, rfl⟩ := dropped
      rw [react_of_blank blank]
      exact .ignore blank rfl
    · have begun : trim line ≠ [] ∨ buffer ≠ [] := by
        rwa [← not_and_or]
      rw [react_of_line dot begun]
      split
      · next closed => exact .translate dot begun closed
      · next unclosed => exact .keep dot begun (by simpa using unclosed)

namespace Session

/-- The session with some first steps and a session after them. -/
def afterAll (steps : List Step) (later : Session) : Session :=
  { later with steps := steps ++ later.steps }

theorem ofLines_cons {buffer line : Text} (stays : react buffer line ≠ .leave)
    (rest : List Bytes) :
    ofLines buffer (utf8 line :: rest) =
      after ⟨buffer, line, react buffer line⟩
        (ofLines (bufferAfter buffer line (react buffer line)) rest) := by
  rw [ofLines, text?_utf8]
  exact if_neg stays

/-- A line cannot be decoded, or the session ends with it, or it goes on. -/
theorem ofLines_cons_cases (buffer : Text) (bytes : Bytes) (lines : List Bytes) :
    (bytes.text? = none ∧ ofLines buffer (bytes :: lines) = ⟨[], buffer, .undecodable⟩) ∨
    ∃ line, bytes = utf8 line ∧
      ((react buffer line = .leave ∧
          ofLines buffer (bytes :: lines) = after ⟨buffer, line, .leave⟩ ⟨[], buffer, .left⟩) ∨
        react buffer line ≠ .leave) := by
  cases decoded : bytes.text? with
  | none =>
      rw [ofLines, decoded]
      exact .inl ⟨rfl, rfl⟩
  | some line =>
      refine .inr ⟨line, (utf8_of_text? decoded).symm, ?_⟩
      by_cases leaves : react buffer line = .leave
      · rw [ofLines, decoded]
        refine .inl ⟨leaves, ?_⟩
        simp only [leaves, if_true]
        rfl
      · exact .inr leaves

/-- A session that ends with its input goes on with more input. -/
theorem ofLines_append {buffer : Text} {lines : List Bytes} (rest : List Bytes)
    (whole : (ofLines buffer lines).ending = .endOfInput) :
    ofLines buffer (lines ++ rest) =
      afterAll (ofLines buffer lines).steps (ofLines (ofLines buffer lines).buffer rest) := by
  induction lines generalizing buffer with
  | nil => rfl
  | cons bytes lines ih =>
      rcases ofLines_cons_cases buffer bytes lines with ⟨-, same⟩ | ⟨line, rfl, ⟨-, same⟩ | stays⟩
      · rw [same] at whole
        cases whole
      · rw [same] at whole
        cases whole
      · rw [ofLines_cons stays] at whole
        rw [List.cons_append, ofLines_cons stays, ofLines_cons stays, ih whole]
        rfl

end Session

/-! ### Reports -/

theorem prompt_of_ne_nil {buffer : Text} (begun : buffer ≠ []) : prompt buffer = "     ...> " := by
  rw [prompt, List.isEmpty_eq_false_iff.mpr begun]
  rfl

/-- The prompt tells whether a document has been begun. -/
theorem prompt_eq_iff {buffer : Text} : prompt buffer = "     ...> " ↔ buffer ≠ [] := by
  constructor
  · rintro same rfl
    exact absurd same (by decide +kernel)
  · exact prompt_of_ne_nil

namespace Session

/-- The documents that were translated in a session. -/
def translated (session : Session) : List Text :=
  session.steps.filterMap fun step =>
    match step.reaction with
    | .translate document => some document
    | _ => none

variable {steps : List Step}

/-- First steps add what they print to a session. -/
theorem report_afterAll (settings : Settings) (steps : List Step) (session : Session) :
    (afterAll steps session).report settings =
      { session.report settings with
        output := steps.flatMap (Step.output settings) ++ (session.report settings).output
        errors := steps.flatMap (Step.errors settings) ++ (session.report settings).errors } := by
  simp [report, afterAll]

end Session

end Shell

end FetchQuery
