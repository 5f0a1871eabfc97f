import Mathlib.Data.List.DropRight
import FetchQuery.Proofs.Shell.Session

/-!
# What is in the buffer

At every prompt the buffer holds the lines since the last time it was emptied, in order, but for
commands and for blank lines before a document, and it closes no document
(`Session.buffer_of_prompts`). What is translated, what is discarded and what is left at the end
are together the lines of the session, but for the same.

## Implementation notes

What the shell does about a line is said once, case by case (`reacts_react`). The invariant is
about the steps before a prompt (`Accounts`); a step keeps it, so it is there after every step.
-/

namespace FetchQuery

namespace Shell

open Text

/-! ### Steps -/

namespace Step

/-- What a step adds to the lines of documents. Commands are no part of a document, and blank lines
before one are dropped. -/
def part (step : Step) : Text :=
  if (trim step.line).head? = some '.' ∨ trim step.line = [] ∧ step.buffer = [] then []
  else step.line

/-- What leaves the buffer in a step, to be translated or to be discarded. -/
def released (step : Step) : Text :=
  match step.reaction with
  | .translate document => document
  | .discard buffer => buffer
  | _ => []

/-- A step with which the buffer is emptied, by command or because a document is complete. -/
def resets (step : Step) : Bool :=
  if (trim step.line).head? = some '.' then
    decide (trim step.line = ".go" ∨ trim step.line = ".clear")
  else
    match step.reaction with
    | .translate _ => true
    | _ => false

variable {step : Step}

theorem part_of_command (dot : (trim step.line).head? = some '.') : step.part = [] :=
  if_pos (.inl dot)

theorem part_of_blank (blank : trim step.line = []) (empty : step.buffer = []) : step.part = [] :=
  if_pos (.inr ⟨blank, empty⟩)

theorem part_of_line (noCommand : (trim step.line).head? ≠ some '.')
    (begun : trim step.line ≠ [] ∨ step.buffer ≠ []) : step.part = step.line :=
  if_neg (not_or.mpr ⟨noCommand, not_and_or.mpr begun⟩)

theorem resets_of_command (dot : (trim step.line).head? = some '.')
    (word : trim step.line = ".go" ∨ trim step.line = ".clear") : step.resets = true := by
  rw [resets, if_pos dot, decide_eq_true word]

theorem not_resets_of_command (dot : (trim step.line).head? = some '.')
    (word : ¬ (trim step.line = ".go" ∨ trim step.line = ".clear")) : step.resets = false := by
  rw [resets, if_pos dot, decide_eq_false word]

end Step

/-- The steps since the buffer was emptied for the last time, or since the start. -/
def sinceReset (steps : List Step) : List Step :=
  steps.rtakeWhile fun step => !step.resets

/-- Some steps from an empty buffer on account for what is in the buffer after them. -/
structure Accounts (steps : List Step) (buffer : Text) : Prop where
  collected : buffer = (sinceReset steps).flatMap Step.part
  unclosed : buffer = [] ∨ closes buffer = false
  conserved : steps.flatMap Step.released ++ buffer = steps.flatMap Step.part

theorem accounts_nil : Accounts [] [] :=
  ⟨rfl, .inl rfl, rfl⟩

namespace Accounts

variable {steps : List Step} {step : Step} {buffer : Text}

/-- A step that empties the buffer releases all that it held and the line. -/
theorem reset (h : Accounts steps buffer) (resets : step.resets = true)
    (released : step.released = buffer ++ step.part) : Accounts (steps ++ [step]) [] := by
  refine ⟨?_, .inl rfl, ?_⟩
  · rw [sinceReset, List.rtakeWhile_concat_neg _ _ _ (by simp [resets])]
    rfl
  · rw [List.flatMap_append, List.flatMap_append, List.flatMap_singleton, List.flatMap_singleton,
      released, ← h.conserved, List.append_nil, List.append_assoc]

/-- Any other step adds its line to the buffer, if it is part of a document. -/
theorem add (h : Accounts steps buffer) (stays : step.resets = false)
    (released : step.released = [])
    (unclosed : buffer ++ step.part = [] ∨ closes (buffer ++ step.part) = false) :
    Accounts (steps ++ [step]) (buffer ++ step.part) := by
  refine ⟨?_, unclosed, ?_⟩
  · rw [sinceReset, List.rtakeWhile_concat_pos _ _ _ (by simp [stays]), List.flatMap_append,
      List.flatMap_singleton]
    exact congrArg (· ++ step.part) h.collected
  · rw [List.flatMap_append, List.flatMap_append, List.flatMap_singleton, List.flatMap_singleton,
      released, ← h.conserved, List.append_nil, List.append_assoc]

/-- If it is not part of one, the buffer is as before. -/
theorem pass (h : Accounts steps buffer) (stays : step.resets = false)
    (released : step.released = []) (dropped : step.part = []) :
    Accounts (steps ++ [step]) buffer := by
  have unclosed : buffer ++ step.part = [] ∨ closes (buffer ++ step.part) = false := by
    rw [dropped, List.append_nil]
    exact h.unclosed
  have added := h.add stays released unclosed
  rwa [dropped, List.append_nil] at added

/-- The shell accounts for the buffer behind each line. -/
theorem react (h : Accounts steps buffer) (line : Text) :
    Accounts (steps ++ [⟨buffer, line, Shell.react buffer line⟩])
      (bufferAfter buffer line (Shell.react buffer line)) := by
  have reacts := reacts_react buffer line
  generalize Shell.react buffer line = reaction at reacts
  cases reacts with
  | help dot word =>
      have other : ¬ (trim line = ".go" ∨ trim line = ".clear") := by
        rw [word]
        decide +kernel
      exact h.pass (Step.not_resets_of_command dot other) rfl (Step.part_of_command dot)
  | go dot word =>
      have nothing : Step.part ⟨buffer, line, .translate buffer⟩ = [] := Step.part_of_command dot
      apply h.reset (Step.resets_of_command dot (.inl word))
      rw [nothing, List.append_nil]
      rfl
  | clear dot word =>
      have nothing : Step.part ⟨buffer, line, .discard buffer⟩ = [] := Step.part_of_command dot
      apply h.reset (Step.resets_of_command dot (.inr word))
      rw [nothing, List.append_nil]
      rfl
  | leave dot word =>
      have other : ¬ (trim line = ".go" ∨ trim line = ".clear") := by
        rcases word with word | word
        · rw [word]
          decide +kernel
        · rw [word]
          decide +kernel
      exact h.pass (Step.not_resets_of_command dot other) rfl (Step.part_of_command dot)
  | reject dot unknown =>
      have other : ¬ (trim line = ".go" ∨ trim line = ".clear") := by
        rintro (word | word)
        · rw [word] at unknown
          exact absurd unknown (by decide +kernel)
        · rw [word] at unknown
          exact absurd unknown (by decide +kernel)
      exact h.pass (Step.not_resets_of_command dot other) rfl (Step.part_of_command dot)
  | ignore blank empty =>
      have noCommand : (trim line).head? ≠ some '.' := by
        rw [blank]
        exact nofun
      have stays : Step.resets ⟨buffer, line, .ignore⟩ = false := if_neg noCommand
      exact h.pass stays rfl (Step.part_of_blank blank empty)
  | translate noCommand begun closed =>
      have resets : Step.resets ⟨buffer, line, .translate (buffer ++ line)⟩ = true :=
        if_neg noCommand
      have whole : Step.part ⟨buffer, line, .translate (buffer ++ line)⟩ = line :=
        Step.part_of_line noCommand begun
      apply h.reset resets
      rw [whole]
      rfl
  | keep noCommand begun unclosed =>
      have stays : Step.resets ⟨buffer, line, .keep⟩ = false := if_neg noCommand
      have whole : Step.part ⟨buffer, line, .keep⟩ = line := Step.part_of_line noCommand begun
      have added := h.add stays rfl (by rw [whole]; exact .inr unclosed)
      rwa [whole] at added

end Accounts

/-! ### Sessions -/

namespace Session

/-- The prompts of a session: with which steps before it and with which buffer one is shown. A
session that is left has no prompt at its end. -/
inductive Prompts (session : Session) : List Step → Text → Prop
  | line {earlier later : List Step} {step : Step}
      (split : session.steps = earlier ++ step :: later) : Prompts session earlier step.buffer
  | last (stays : session.ending ≠ .left) : Prompts session session.steps session.buffer

/-- What a session has not read when it ends. -/
def Leaves (session : Session) (unread : List Bytes) : Prop :=
  match session.ending with
  | .endOfInput => unread = []
  | .left => ∃ step ∈ session.steps.getLast?, step.reaction = .leave
  | .undecodable => ∃ bytes ∈ unread.head?, bytes.text? = none

/-- A session behind some steps in which the buffer is accounted for at each line and at the end. -/
structure IsAccounted (steps : List Step) (session : Session) : Prop where
  line : ∀ earlier step later, session.steps = earlier ++ step :: later →
    Accounts (steps ++ earlier) step.buffer
  last : Accounts (steps ++ session.steps) session.buffer

section

variable {steps : List Step} {step : Step} {buffer : Text} {session : Session}

theorem isAccounted_of_end (h : Accounts steps buffer) (ending : Ending) :
    IsAccounted steps ⟨[], buffer, ending⟩ := by
  constructor
  · intro earlier step later split
    exact absurd split (by simp)
  · rw [List.append_nil]
    exact h

theorem IsAccounted.after (h : Accounts steps step.buffer)
    (later : IsAccounted (steps ++ [step]) session) :
    IsAccounted steps (Session.after step session) := by
  constructor
  · intro earlier other rest split
    cases earlier with
    | nil =>
        cases split
        rw [List.append_nil]
        exact h
    | cons first earlier =>
        obtain ⟨rfl, inner⟩ := List.cons.inj split
        rw [List.append_cons]
        exact later.line earlier other rest inner
  · have last := later.last
    rw [List.append_assoc] at last
    exact last

/-- A session accounts for the buffer, if the steps before it do. -/
theorem isAccounted_ofLines (h : Accounts steps buffer) (lines : List Bytes) :
    IsAccounted steps (ofLines buffer lines) := by
  induction lines generalizing steps buffer with
  | nil => exact isAccounted_of_end h .endOfInput
  | cons bytes lines ih =>
      rcases ofLines_cons_cases buffer bytes lines with
        ⟨-, same⟩ | ⟨line, rfl, ⟨leaves, same⟩ | stays⟩
      · rw [same]
        exact isAccounted_of_end h .undecodable
      · have step := h.react line
        rw [leaves] at step
        rw [same]
        exact .after h (isAccounted_of_end step .left)
      · rw [ofLines_cons stays]
        exact .after h (ih (h.react line))

theorem Leaves.after {unread : List Bytes} (h : session.Leaves unread) :
    (Session.after step session).Leaves unread := by
  obtain ⟨steps, buffer, ending⟩ := session
  cases ending with
  | left =>
      obtain ⟨last, isLast, leaves⟩ := h
      refine ⟨last, ?_, leaves⟩
      rw [Option.mem_def] at isLast ⊢
      rw [Session.after, List.getLast?_cons, isLast]
      rfl
  | endOfInput => exact h
  | undecodable => exact h

/-- The lines of a session are the lines it was given, up to where it ends. -/
theorem exists_unread (buffer : Text) (lines : List Bytes) :
    ∃ unread, lines = (ofLines buffer lines).steps.map (fun step => utf8 step.line) ++ unread ∧
      (ofLines buffer lines).Leaves unread := by
  induction lines generalizing buffer with
  | nil => exact ⟨[], rfl, rfl⟩
  | cons bytes lines ih =>
      rcases ofLines_cons_cases buffer bytes lines with
        ⟨undecodable, same⟩ | ⟨line, rfl, ⟨-, same⟩ | stays⟩
      · rw [same]
        exact ⟨bytes :: lines, rfl, bytes, rfl, undecodable⟩
      · rw [same]
        exact ⟨lines, rfl, _, rfl, rfl⟩
      · rw [ofLines_cons stays]
        obtain ⟨unread, whole, leaves⟩ := ih (bufferAfter buffer line (react buffer line))
        exact ⟨unread, congrArg (utf8 line :: ·) whole, leaves.after⟩

end

/-- What was printed up to a prompt, and the prompt, are the beginning of what is printed. -/
theorem Prompts.output_prefix {session : Session} {earlier : List Step} {buffer : Text}
    (h : session.Prompts earlier buffer) (settings : Settings) :
    earlier.flatMap (Step.output settings) ++ prompt buffer <+:
      (session.report settings).output := by
  cases h with
  | @line earlier later step split =>
      refine ⟨said settings step.reaction ++ (later.flatMap (Step.output settings) ++
        session.ending.output session.buffer), ?_⟩
      simp [report, split, Step.output]
  | last stays =>
      have shown : session.ending.output session.buffer = prompt session.buffer := by
        cases ending : session.ending with
        | left => exact absurd ending stays
        | endOfInput => rfl
        | undecodable => rfl
      rw [← shown]
      exact List.prefix_refl _

/-- At every prompt the buffer is made of the lines since it was last emptied, and it closes no
document; the prompt tells whether there is anything in it. What was translated, what was
discarded and what is left at the end are, in the order of time, the lines of the session up to
its end. Commands and blank lines before a document are no part of either. -/
theorem buffer_of_prompts (settings : Settings) (input : Bytes) :
    let session := ofInput input
    (∀ earlier buffer, session.Prompts earlier buffer →
      buffer = (sinceReset earlier).flatMap Step.part ∧
      (buffer = [] ∨ closes buffer = false) ∧
      earlier.flatMap (Step.output settings) ++ prompt buffer <+: (run settings input).output ∧
      (prompt buffer = "     ...> " ↔ buffer ≠ [])) ∧
    session.steps.flatMap Step.released ++ session.buffer = session.steps.flatMap Step.part ∧
    ∃ unread, input.lines = session.steps.map (fun step => utf8 step.line) ++ unread ∧
      session.Leaves unread := by
  intro session
  have accounted : IsAccounted [] session := isAccounted_ofLines accounts_nil input.lines
  refine ⟨?_, accounted.last.conserved, exists_unread [] input.lines⟩
  intro earlier buffer shown
  have accounts : Accounts earlier buffer := by
    cases shown with
    | line split => exact accounted.line _ _ _ split
    | last stays => exact accounted.last
  exact ⟨accounts.collected, accounts.unclosed, shown.output_prefix settings, prompt_eq_iff⟩

/-- A document with a blank line and a command in it, at the prompt before its third line, in a
session in which another document is translated, a third is discarded and a fourth is left. -/
theorem buffer_of_prompts_commands :
    let input := utf8 "\n<a\n.help\n\n>\n.go\n<fetch/>\nx\n.clear\ny"
    let session := ofInput input
    let settings : Settings := {}
    ∃ earlier buffer, session.Prompts earlier buffer ∧
      earlier.map Step.line = ["\n", "<a\n", ".help\n", "\n"] ∧ buffer = "<a\n\n" ∧
      buffer = (sinceReset earlier).flatMap Step.part ∧
      earlier.flatMap (Step.output settings) ++ prompt buffer <+: (run settings input).output ∧
      session.steps.flatMap Step.released ++ session.buffer = "<a\n\n>\n<fetch/>\nx\ny" ∧
      session.steps.flatMap Step.released ++ session.buffer = session.steps.flatMap Step.part := by
  intro input session settings
  obtain ⟨accounts, conserved, -⟩ := buffer_of_prompts settings input
  have split : session.steps =
      session.steps.take 4 ++ ⟨"<a\n\n", ">\n", .keep⟩ :: session.steps.drop 5 := by
    decide +kernel
  have shown : session.Prompts (session.steps.take 4) "<a\n\n" := .line split
  obtain ⟨collected, -, output, -⟩ := accounts _ _ shown
  exact ⟨_, _, shown, by decide +kernel, rfl, collected, output, by decide +kernel, conserved⟩

end Session

end Shell

end FetchQuery
