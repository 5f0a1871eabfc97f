import FetchQuery.Text.Basic

/-!
# Marks in a text

A mark is a fixed text that opens or ends something. `after?` recognizes a mark at the
start of a text, `cut?` finds the first place where it stands, and `contains` says
whether there is such a place.
-/

namespace FetchQuery

namespace Text

/-- What follows a mark at the start of a text. -/
def after? (mark text : Text) : Option Text :=
  mark.isPrefixOf? text

theorem after?_eq_some_iff {mark text rest : Text} :
    after? mark text = some rest ↔ text = mark ++ rest := by
  induction mark generalizing text with
  | nil => exact ⟨fun h => Option.some.inj h, fun h => congrArg some h⟩
  | cons m mark ih =>
      cases text with
      | nil => exact ⟨(nomatch ·), (nomatch ·)⟩
      | cons c text =>
          change (if m == c then after? mark text else none) = some rest ↔ _
          by_cases h : m = c
          · simp [h, ih]
          · simp [h, Ne.symm h]

/-- The parts of a text before and after the first occurrence of a mark. -/
def cut? (mark text : Text) : Option (Text × Text) :=
  match after? mark text with
  | some rest => some ([], rest)
  | none =>
      match text with
      | [] => none
      | c :: tail => (cut? mark tail).map fun (before, after) => (c :: before, after)

/-- A cut loses nothing: the mark stands between the two parts. -/
theorem eq_of_cut? {mark text before after : Text} (h : cut? mark text = some (before, after)) :
    text = before ++ mark ++ after := by
  induction text generalizing before after with
  | nil =>
      unfold cut? at h
      split at h
      · next rest hrest =>
        obtain ⟨rfl, rfl⟩ := by simpa using h
        simpa using after?_eq_some_iff.mp hrest
      · simp at h
  | cons c tail ih =>
      unfold cut? at h
      split at h
      · next rest hrest =>
        obtain ⟨rfl, rfl⟩ := by simpa using h
        simpa using after?_eq_some_iff.mp hrest
      · simp only [Option.map_eq_some_iff, Prod.exists, Prod.mk.injEq] at h
        obtain ⟨first, second, hcut, rfl, rfl⟩ := h
        simp [ih hcut]

/-- A text in which a mark occurs. -/
def contains (mark text : Text) : Bool :=
  (cut? mark text).isSome

end Text

end FetchQuery
