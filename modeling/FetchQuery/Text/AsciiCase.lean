import FetchQuery.Text.Basic

/-!
# Letter case

Tags, keywords and truth values are compared without regard to the case of the letters
`a` to `z`. Letters beyond ASCII are compared as they stand.
-/

namespace FetchQuery

namespace Text

/-- A text with the letters `A` to `Z` in lower case. -/
def toLower (text : Text) : Text :=
  text.map Char.toLower

/-- Two texts that differ at most in the case of ASCII letters. -/
def sameLetters (first second : Text) : Bool :=
  toLower first == toLower second

theorem sameLetters_iff (first second : Text) :
    sameLetters first second = true ↔ toLower first = toLower second := by
  simp [sameLetters]

end Text

end FetchQuery
