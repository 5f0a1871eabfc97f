import FetchQuery.Request.Json
import FetchQuery.Proofs.Json.Printing

/-!
# The two layouts

A value is written with the same pieces in the same order in both styles. The indented style only
puts spaces and line feeds between them, so without those the indented text of a request is its
compact text (`dropSpaces_write_indented`).

## Implementation notes

Spaces in a text in quotes belong to it, so what is dropped depends on where a character stands. A
text in quotes has to lead back to the outside for this, whatever it says (`dropSpaces_quoted`).
-/

namespace FetchQuery

namespace Json

open Text

/-! ### Dropping spaces -/

/-- Where a character stands: outside of quotes, inside, or inside and behind a backslash. -/
inductive Place where
  | outside
  | inside
  | escaped
  deriving DecidableEq, Repr

/-- The place behind a character. -/
def Place.after (place : Place) (c : Char) : Place :=
  match place with
  | outside => if c = '"' then inside else outside
  | inside => if c = '"' then outside else if c = '\\' then escaped else inside
  | escaped => inside

/-- A text without the spaces and line feeds that stand outside of quotes. -/
def dropSpaces (place : Place) : Text → Text
  | [] => []
  | c :: rest =>
      if place = .outside ∧ (c = ' ' ∨ c = '\n') then dropSpaces (place.after c) rest
      else c :: dropSpaces (place.after c) rest

section

variable {text : Text} (rest : Text)

/-- Spaces outside of quotes are dropped. -/
theorem dropSpaces_spaces (spaces : ∀ c ∈ text, c = ' ' ∨ c = '\n') :
    dropSpaces .outside (text ++ rest) = dropSpaces .outside rest := by
  induction text with
  | nil => rfl
  | cons c text ih =>
      rw [List.forall_mem_cons] at spaces
      have stays : Place.outside.after c = .outside := by
        rcases spaces.1 with rfl | rfl <;> rfl
      rw [List.cons_append, dropSpaces, if_pos ⟨rfl, spaces.1⟩, stays, ih spaces.2]

/-- Other characters outside of quotes are kept, up to the next quote. -/
theorem dropSpaces_marks (marks : ∀ c ∈ text, c ≠ ' ' ∧ c ≠ '\n' ∧ c ≠ '"') :
    dropSpaces .outside (text ++ rest) = text ++ dropSpaces .outside rest := by
  induction text with
  | nil => rfl
  | cons c text ih =>
      rw [List.forall_mem_cons] at marks
      obtain ⟨⟨notSpace, notLineFeed, notQuote⟩, later⟩ := marks
      have stays : Place.outside.after c = .outside := if_neg notQuote
      have kept : ¬ (Place.outside = .outside ∧ (c = ' ' ∨ c = '\n')) := by
        simp [notSpace, notLineFeed]
      rw [List.cons_append, dropSpaces, if_neg kept, stays, ih later, List.cons_append]

/-- Inside of quotes everything is kept. -/
theorem dropSpaces_plain (plain : ∀ c ∈ text, c ≠ '"' ∧ c ≠ '\\') :
    dropSpaces .inside (text ++ rest) = text ++ dropSpaces .inside rest := by
  induction text with
  | nil => rfl
  | cons c text ih =>
      rw [List.forall_mem_cons] at plain
      obtain ⟨⟨notQuote, notBackslash⟩, later⟩ := plain
      have stays : Place.inside.after c = .inside := by
        simp [Place.after, notQuote, notBackslash]
      rw [List.cons_append, dropSpaces, if_neg (by simp), stays, ih later, List.cons_append]

theorem dropSpaces_backslash (c : Char) :
    dropSpaces .inside ('\\' :: c :: rest) = '\\' :: c :: dropSpaces .inside rest := by
  simp [dropSpaces, Place.after]

/-! ### Pieces of a value -/

/-- The digits of a control character are no marks of texts in quotes. -/
theorem digitChar_plain {digit : Nat} (h : digit < 16) :
    Nat.digitChar digit ≠ '"' ∧ Nat.digitChar digit ≠ '\\' := by
  interval_cases digit <;> decide

/-- The written form of a character is kept and does not end the text that it is in. -/
theorem dropSpaces_escape (c : Char) :
    dropSpaces .inside (escape c ++ rest) = escape c ++ dropSpaces .inside rest := by
  unfold escape
  split
  · exact dropSpaces_backslash rest _
  · next unmarked =>
    split
    · next control =>
      have digits : ∀ d ∈ ['0', '0', Nat.digitChar (c.toNat / 16), Nat.digitChar (c.toNat % 16)],
          d ≠ '"' ∧ d ≠ '\\' := by
        simp only [List.forall_mem_cons, List.not_mem_nil, false_implies, implies_true, and_true]
        exact ⟨by decide, by decide, digitChar_plain (by omega), digitChar_plain (by omega)⟩
      have later := dropSpaces_plain rest digits
      exact (dropSpaces_backslash _ 'u').trans (congrArg (fun text => '\\' :: 'u' :: text) later)
    · apply dropSpaces_plain
      rw [List.forall_mem_singleton]
      constructor
      · rintro rfl
        exact nomatch unmarked
      · rintro rfl
        exact nomatch unmarked

/-- A text in quotes is kept as it is. -/
theorem dropSpaces_quoted (text : Text) :
    dropSpaces .outside (quoted text ++ rest) = quoted text ++ dropSpaces .outside rest := by
  have inside (more : Text) : dropSpaces .inside (text.flatMap escape ++ more) =
      text.flatMap escape ++ dropSpaces .inside more := by
    induction text with
    | nil => rfl
    | cons c text ih => simp only [List.flatMap_cons, List.append_assoc, dropSpaces_escape, ih]
  have opens (more : Text) : dropSpaces .outside ('"' :: more) = '"' :: dropSpaces .inside more :=
    rfl
  have closes : dropSpaces .inside ('"' :: rest) = '"' :: dropSpaces .outside rest := rfl
  simp only [quoted, List.cons_append, List.append_assoc, List.nil_append, opens, inside, closes]

theorem dropSpaces_decimal (number : Nat) :
    dropSpaces .outside (decimal number ++ rest) = decimal number ++ dropSpaces .outside rest := by
  apply dropSpaces_marks
  intro c inside
  have digit : c.isDigit = true := Nat.isDigit_of_mem_toDigits (by decide) (by decide) inside
  refine ⟨?_, ?_, ?_⟩
  · rintro rfl
    exact absurd digit (by decide)
  · rintro rfl
    exact absurd digit (by decide)
  · rintro rfl
    exact absurd digit (by decide)

theorem dropSpaces_mark {c : Char} (mark : c ≠ ' ' ∧ c ≠ '\n' ∧ c ≠ '"') :
    dropSpaces .outside (c :: rest) = c :: dropSpaces .outside rest :=
  dropSpaces_marks rest (List.forall_mem_singleton.mpr mark)

theorem dropSpaces_lineStart (style : Style) (depth : Nat) :
    dropSpaces .outside (style.lineStart depth ++ rest) = dropSpaces .outside rest := by
  cases style with
  | compact => rfl
  | indented =>
      apply dropSpaces_spaces
      intro c inside
      rcases List.mem_cons.mp inside with rfl | space
      · exact .inr rfl
      · exact .inl (List.eq_of_mem_replicate space)

theorem dropSpaces_colon (style : Style) :
    dropSpaces .outside (style.colon ++ rest) = ':' :: dropSpaces .outside rest := by
  cases style with
  | compact => rfl
  | indented => rfl

end

theorem lineStart_compact (depth : Nat) : Style.compact.lineStart depth = [] := rfl

theorem colon_compact : Style.compact.colon = [':'] := rfl

/-! ### Values -/

namespace Value

/-- What is left of a value is its compact text, and what follows it is outside of quotes again. -/
def IsSqueezed (style : Style) (depth : Nat) (value : Value) : Prop :=
  ∀ rest, dropSpaces .outside (value.writeAt style depth ++ rest) =
    value.writeAt .compact depth ++ dropSpaces .outside rest

variable {style : Style} {depth : Nat}

theorem dropSpaces_writeItems {items : List Value}
    (h : ∀ item ∈ items, item.IsSqueezed style depth) (rest : Text) :
    dropSpaces .outside (writeItems style depth items ++ rest) =
      writeItems .compact depth items ++ dropSpaces .outside rest := by
  induction items with
  | nil => rfl
  | cons item items ih =>
      rw [List.forall_mem_cons] at h
      simp (disch := decide) only [writeItems, List.cons_append, List.append_assoc, dropSpaces_mark,
        dropSpaces_lineStart, h.1 _, ih h.2, lineStart_compact, List.nil_append]

theorem dropSpaces_writeMembers {members : List (Text × Value)}
    (h : ∀ pair ∈ members, pair.2.IsSqueezed style depth) (rest : Text) :
    dropSpaces .outside (writeMembers style depth members ++ rest) =
      writeMembers .compact depth members ++ dropSpaces .outside rest := by
  induction members with
  | nil => rfl
  | cons pair members ih =>
      obtain ⟨name, value⟩ := pair
      rw [List.forall_mem_cons] at h
      simp (disch := decide) only [writeMembers, List.cons_append, List.append_assoc,
        dropSpaces_mark, dropSpaces_lineStart, dropSpaces_quoted, dropSpaces_colon, h.1 _, ih h.2,
        lineStart_compact, colon_compact, List.nil_append]

/-- This holds of every value, at whatever depth it stands. -/
theorem isSqueezed (style : Style) (value : Value) (depth : Nat) :
    value.IsSqueezed style depth := by
  induction value using Value.induction generalizing depth with
  | bool value =>
      cases value with
      | true => exact fun rest => rfl
      | false => exact fun rest => rfl
  | number value => exact fun rest => dropSpaces_decimal rest value
  | text value => exact fun rest => dropSpaces_quoted rest value
  | list items ih =>
      intro rest
      cases items with
      | nil => rfl
      | cons item items =>
          have inside := fun value present => ih value present (depth + 1)
          rw [List.forall_mem_cons] at inside
          simp (disch := decide) only [writeAt, List.cons_append, List.append_assoc,
            dropSpaces_mark, dropSpaces_lineStart, inside.1 _, dropSpaces_writeItems inside.2,
            lineStart_compact, List.nil_append]
  | object members ih =>
      intro rest
      cases members with
      | nil => rfl
      | cons pair members =>
          obtain ⟨name, value⟩ := pair
          have inside := fun pair present => ih pair present (depth + 1)
          rw [List.forall_mem_cons] at inside
          simp (disch := decide) only [writeAt, List.cons_append, List.append_assoc,
            dropSpaces_mark, dropSpaces_lineStart, dropSpaces_quoted, dropSpaces_colon, inside.1 _,
            dropSpaces_writeMembers inside.2, lineStart_compact, colon_compact, List.nil_append]

end Value

end Json

open Json

/-- Without the spaces and line feeds outside of quotes, the indented text of a request is its
compact text. -/
theorem Request.dropSpaces_write_indented (request : Request) :
    dropSpaces .outside (request.toJson.write .indented) = request.toJson.write .compact := by
  have whole := request.toJson.isSqueezed .indented 0 []
  rw [List.append_nil] at whole
  exact whole.trans (List.append_nil _)

end FetchQuery
