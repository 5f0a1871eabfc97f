/-!
# Texts

A text is the list of its characters, so that reading a text is recursion on a list and
what is left to read is again a text. Positions in a document are counted in bytes of
its UTF-8 form; `byteLength` is that count.

## Implementation notes

Fixed words of the library are written as string literals and coerced to texts. The
coercion is irreducible: a literal stays folded until a proof asks for its characters
(`ofString_eq`).
-/

namespace FetchQuery

/-- A text, character by character. -/
abbrev Text := List Char

namespace Text

/-- The characters of a string. -/
@[irreducible] def ofString (string : String) : Text :=
  string.toList

@[simp] theorem ofString_eq (string : String) : ofString string = string.toList := by
  unfold ofString
  rfl

/-- The number of bytes a text takes in UTF-8. -/
def byteLength : Text → Nat
  | [] => 0
  | c :: text => c.utf8Size + byteLength text

@[simp] theorem byteLength_append (first second : Text) :
    byteLength (first ++ second) = byteLength first + byteLength second := by
  induction first with
  | nil => simp [byteLength]
  | cons c first ih => simp [byteLength, ih, Nat.add_assoc]

theorem byteLength_pos {text : Text} (nonempty : text ≠ []) : 0 < byteLength text := by
  obtain ⟨c, text, rfl⟩ := List.exists_cons_of_ne_nil nonempty
  exact Nat.add_pos_left c.utf8Size_pos (byteLength text)

/-- The text without its longest tail of characters that satisfy `p`. -/
def dropEndWhile (p : Char → Bool) (text : Text) : Text :=
  (text.reverse.dropWhile p).reverse

/-- The decimal numeral of a number, without sign or leading zeros. -/
def decimal (n : Nat) : Text :=
  Nat.toDigits 10 n

end Text

instance : Coe String Text := ⟨Text.ofString⟩

end FetchQuery
