import FetchQuery.Text.Basic

/-!
# JSON values and their text

The values that a request is written with: truth values, natural numbers, texts, lists
and objects whose members keep their order. `Value.write` writes a value in one of two
styles, on one line without spaces or indented by two spaces a level. Empty lists and
objects are written without anything inside in both.

## Implementation notes

Both styles come from one function, which asks the style only for what stands between
the pieces of a value.
-/

namespace FetchQuery

namespace Json

/-- A value. -/
inductive Value where
  | bool (value : Bool)
  | number (value : Nat)
  | text (value : Text)
  | list (items : List Value)
  | object (members : List (Text × Value))
  deriving Repr

/-- The letter of the short escape of a character, if there is one. -/
def shortEscape? (c : Char) : Option Char :=
  [('"', '"'), ('\\', '\\'), ('\x08', 'b'), ('\t', 't'), ('\n', 'n'), ('\x0c', 'f'),
    ('\r', 'r')].lookup c

/-- A character inside quotes. Quotes, backslashes and control characters are escaped. -/
def escape (c : Char) : Text :=
  match shortEscape? c with
  | some letter => ['\\', letter]
  | none =>
      if c.toNat < 0x20 then
        ['\\', 'u', '0', '0', Nat.digitChar (c.toNat / 16), Nat.digitChar (c.toNat % 16)]
      else [c]

/-- A text in quotes. -/
def quoted (text : Text) : Text :=
  '"' :: (text.flatMap escape ++ ['"'])

/-- A way to lay out values. -/
inductive Style where
  | compact
  | indented
  deriving DecidableEq, Repr

namespace Style

/-- What starts the line of a piece that lies at a depth. -/
def lineStart (style : Style) (depth : Nat) : Text :=
  match style with
  | compact => []
  | indented => '\n' :: List.replicate (2 * depth) ' '

/-- What stands between the name of a member and its value. -/
def colon : Style → Text
  | compact => [':']
  | indented => [':', ' ']

end Style

namespace Value

mutual

/-- The text of a value that lies at a depth. -/
def writeAt (style : Style) (depth : Nat) : Value → Text
  | bool true => ['t', 'r', 'u', 'e']
  | bool false => ['f', 'a', 'l', 's', 'e']
  | number value => Text.decimal value
  | text value => quoted value
  | list [] => ['[', ']']
  | list (item :: items) =>
      '[' :: (style.lineStart (depth + 1) ++ writeAt style (depth + 1) item ++
        writeItems style (depth + 1) items ++ style.lineStart depth ++ [']'])
  | object [] => ['\x7b', '\x7d']
  | object ((name, value) :: members) =>
      '\x7b' :: (style.lineStart (depth + 1) ++ quoted name ++ style.colon ++
        writeAt style (depth + 1) value ++ writeMembers style (depth + 1) members ++
        style.lineStart depth ++ ['\x7d'])

/-- The items of a list after the first one, each with the comma before it. -/
def writeItems (style : Style) (depth : Nat) : List Value → Text
  | [] => []
  | item :: items =>
      ',' :: (style.lineStart depth ++ writeAt style depth item ++ writeItems style depth items)

/-- The members of an object after the first one, each with the comma before it. -/
def writeMembers (style : Style) (depth : Nat) : List (Text × Value) → Text
  | [] => []
  | (name, value) :: members =>
      ',' :: (style.lineStart depth ++ quoted name ++ style.colon ++
        writeAt style depth value ++ writeMembers style depth members)

end

/-- The text of a value. -/
def write (style : Style) (value : Value) : Text :=
  value.writeAt style 0

end Value

end Json

end FetchQuery
