import Mathlib.Data.List.Infix
import Mathlib.Data.List.TakeWhile
import FetchQuery.Text.Blank
import FetchQuery.Text.Search

/-!
# Spans of a text

A span of characters of one kind ends where the text ends or a character of another kind
stands. Reading it again from the whole text gives back the same two parts. A mark is found
at its first place, so the text before that place is free of it.
-/

namespace FetchQuery

namespace Text

/-- A text of blanks only. -/
def IsBlanks (text : Text) : Prop :=
  ∀ c ∈ text, isBlank c = true

instance (text : Text) : Decidable (IsBlanks text) :=
  decidable_of_iff (text.all isBlank = true) List.all_eq_true

theorem isBlanks_nil : IsBlanks [] :=
  nofun

variable {p : Char → Bool} {span rest : Text}

/-- A span before a character of another kind is all that is taken. -/
theorem takeWhile_append_of_stop (inside : ∀ c ∈ span, p c = true)
    (stop : ∀ c ∈ rest.head?, p c = false) : (span ++ rest).takeWhile p = span := by
  rw [List.takeWhile_append_of_pos inside]
  cases rest with
  | nil => simp
  | cons c rest => simp [stop c rfl]

/-- A span before a character of another kind is all that is dropped. -/
theorem dropWhile_append_of_stop (inside : ∀ c ∈ span, p c = true)
    (stop : ∀ c ∈ rest.head?, p c = false) : (span ++ rest).dropWhile p = rest := by
  rw [List.dropWhile_append_of_pos inside]
  cases rest with
  | nil => rfl
  | cons c rest => simp [stop c rfl]

/-- The first character that is not dropped is of another kind. -/
theorem head?_dropWhile {text : Text} : ∀ c ∈ (text.dropWhile p).head?, p c = false := by
  have := List.head?_dropWhile_not p text
  cases h : (text.dropWhile p).head? with
  | none => simp
  | some c => simpa [h] using this

/-- A span behind a character of another kind is all that is dropped from the end. -/
theorem dropEndWhile_append_of_stop (inside : ∀ c ∈ rest, p c = true)
    (stop : ∀ c ∈ span.getLast?, p c = false) : dropEndWhile p (span ++ rest) = span := by
  rw [← List.head?_reverse] at stop
  rw [dropEndWhile, List.reverse_append, dropWhile_append_of_stop _ stop, List.reverse_reverse]
  intro c reversed
  exact inside c (List.mem_reverse.mp reversed)

/-- Blanks are all that is dropped as blanks. -/
theorem dropBlanks_append_of_stop (inside : IsBlanks span)
    (stop : ∀ c ∈ rest.head?, isBlank c = false) : dropBlanks (span ++ rest) = rest :=
  dropWhile_append_of_stop inside stop

theorem isBlanks_takeWhile (text : Text) : IsBlanks (text.takeWhile isBlank) := fun _ inside =>
  List.mem_takeWhile_imp inside

/-- Blanks and what is left behind them make up a text. -/
theorem eq_of_dropBlanks {text : Text} (start : dropBlanks text = rest) :
    text = text.takeWhile isBlank ++ rest := by
  have whole := List.takeWhile_append_dropWhile (p := isBlank) (l := text)
  rw [show text.dropWhile isBlank = rest from start] at whole
  exact whole.symm

/-- What is left behind blanks does not begin with one. -/
theorem isBlank_of_dropBlanks {text : Text} {first : Char}
    (start : dropBlanks text = first :: rest) : isBlank first = false := by
  apply head?_dropWhile
  rw [show text.dropWhile isBlank = first :: rest from start]
  rfl

/-- A text has one first place at which a span ends, so the parts around it are known. -/
theorem eq_of_append_of_stop {span' rest' : Text} (inside : ∀ c ∈ span, p c = true)
    (inside' : ∀ c ∈ span', p c = true) (stop : ∀ c ∈ rest.head?, p c = false)
    (stop' : ∀ c ∈ rest'.head?, p c = false) (same : span ++ rest = span' ++ rest') :
    span = span' ∧ rest = rest' := by
  constructor
  · rw [← takeWhile_append_of_stop inside stop, same, takeWhile_append_of_stop inside' stop']
  · rw [← dropWhile_append_of_stop inside stop, same, dropWhile_append_of_stop inside' stop']

/-- A text has one first place of a character, so the parts around it are known. -/
theorem eq_of_append_cons {mark : Char} {before before' after after' : Text}
    (free : mark ∉ before) (free' : mark ∉ before')
    (same : before ++ mark :: after = before' ++ mark :: after') :
    before = before' ∧ after = after' := by
  have inside {part : Text} (absent : mark ∉ part) : ∀ c ∈ part, (c != mark) = true := by
    intro c present
    exact bne_iff_ne.mpr fun isMark => absent (isMark ▸ present)
  have stop (later : Text) : ∀ c ∈ (mark :: later).head?, (c != mark) = false := by simp
  obtain ⟨rfl, tail⟩ :=
    eq_of_append_of_stop (inside free) (inside free') (stop after) (stop after') same
  exact ⟨rfl, (List.cons.inj tail).2⟩

/-! ### Trimming -/

/-- What stands between white space, and does not begin or end with it, is left by trimming. -/
theorem trim_append {before core after : Text} (white : ∀ c ∈ before, isWhiteSpace c = true)
    (white' : ∀ c ∈ after, isWhiteSpace c = true) (first : ∀ c ∈ core.head?, isWhiteSpace c = false)
    (last : ∀ c ∈ core.getLast?, isWhiteSpace c = false) (nonempty : core ≠ []) :
    trim (before ++ (core ++ after)) = core := by
  have stop : ∀ c ∈ (core ++ after).head?, isWhiteSpace c = false := by
    rwa [List.head?_append_of_ne_nil _ nonempty]
  rw [trim, dropWhile_append_of_stop white stop, dropEndWhile_append_of_stop white' last]

/-- Nothing but white space is lost by trimming. -/
theorem exists_eq_trim (text : Text) :
    ∃ before after, text = before ++ (trim text ++ after) ∧
      (∀ c ∈ before, isWhiteSpace c = true) ∧ ∀ c ∈ after, isWhiteSpace c = true := by
  refine ⟨text.takeWhile isWhiteSpace,
    ((text.dropWhile isWhiteSpace).reverse.takeWhile isWhiteSpace).reverse, ?_,
    fun _ => List.mem_takeWhile_imp, fun _ inside => List.mem_takeWhile_imp (List.mem_reverse.mp inside)⟩
  rw [trim, dropEndWhile, ← List.reverse_append, List.takeWhile_append_dropWhile,
    List.reverse_reverse, List.takeWhile_append_dropWhile]

/-! ### Marks -/

theorem after?_eq_none_iff {mark text : Text} : after? mark text = none ↔ ¬ mark <+: text := by
  constructor
  · rintro h ⟨rest, rfl⟩
    simp [after?_eq_some_iff.mpr rfl] at h
  · intro h
    cases found : after? mark text with
    | none => rfl
    | some rest => exact absurd ⟨rest, (after?_eq_some_iff.mp found).symm⟩ h

theorem cut?_of_after? {mark text rest : Text} (h : after? mark text = some rest) :
    cut? mark text = some ([], rest) := by
  unfold cut?
  rw [h]

theorem cut?_cons_of_after? {mark tail : Text} {c : Char} (h : after? mark (c :: tail) = none) :
    cut? mark (c :: tail) = (cut? mark tail).map fun (before, after) => (c :: before, after) := by
  rw [cut?, h]

/-- A mark occurs nowhere before its first place. -/
theorem not_infix_of_cut? {mark text before after : Text} (nonempty : mark ≠ [])
    (h : cut? mark text = some (before, after)) : ¬ mark <:+: before := by
  induction text generalizing before with
  | nil =>
      unfold cut? at h
      split at h
      · cases h
        simpa using nonempty
      · exact nomatch h
  | cons c tail ih =>
      cases found : after? mark (c :: tail) with
      | some rest =>
          rw [cut?_of_after? found] at h
          cases h
          simpa using nonempty
      | none =>
          rw [cut?_cons_of_after? found, Option.map_eq_some_iff] at h
          obtain ⟨⟨first, second⟩, cut, same⟩ := h
          cases same
          rw [List.infix_cons_iff, not_or]
          refine ⟨fun early => ?_, ih cut⟩
          apply after?_eq_none_iff.mp found
          rw [eq_of_cut? cut, List.append_assoc, ← List.cons_append]
          exact early.trans (List.prefix_append _ _)

/-- A mark of which no proper part both begins and ends it. -/
def Unbordered (mark : Text) : Prop :=
  ∀ part, part <+: mark → part <:+ mark → part = [] ∨ part = mark

instance (mark : Text) : Decidable (Unbordered mark) :=
  decidable_of_iff (∀ part ∈ mark.inits, part <:+ mark → part = [] ∨ part = mark) (by
    simp only [Unbordered, List.mem_inits])

/-- The first place of a mark is after a text in which it does not occur. -/
theorem cut?_of_not_infix {mark body : Text} (unbordered : Unbordered mark) (rest : Text)
    (absent : ¬ mark <:+: body) : cut? mark (body ++ (mark ++ rest)) = some (body, rest) := by
  induction body with
  | nil => exact cut?_of_after? (after?_eq_some_iff.mpr rfl)
  | cons c body ih =>
      have absent' : ¬ mark <:+: body := fun h => absent (List.infix_cons h)
      have late : after? mark (c :: (body ++ (mark ++ rest))) = none := by
        rw [after?_eq_none_iff]
        rintro ⟨tail, same⟩
        rw [← List.cons_append, List.append_eq_append_iff] at same
        rcases same with ⟨part, whole, -⟩ | ⟨part, whole, shifted⟩
        · exact absent ⟨[], part, by simpa using whole.symm⟩
        -- An earlier mark would reach into this one, and end it as well as begin it.
        · have ends : part <:+ mark := ⟨c :: body, whole.symm⟩
          have begins : part <+: mark :=
            List.prefix_of_prefix_length_le ⟨tail, shifted.symm⟩ (List.prefix_append mark rest)
              ends.length_le
          rcases unbordered part begins ends with rfl | rfl
          · exact absent ⟨[], [], by simpa using whole⟩
          · have longer := congrArg List.length whole
            simp only [List.length_append, List.length_cons] at longer
            omega
      rw [List.cons_append, cut?_cons_of_after? late, ih absent']
      rfl

end Text

end FetchQuery
