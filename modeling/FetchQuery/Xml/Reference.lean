import FetchQuery.Text.Numeral
import FetchQuery.Xml.Fault

/-!
# References in values

A value is written with references for characters that would end it or start a
reference. A reference is a name or a character number between `&` and `;`. `decode`
replaces every reference by its character and keeps all other characters, blanks and
stray semicolons included.

## Implementation notes

Positions in a fault are found from the text that is still unread: what stands before it
is the rest of the value.
-/

namespace FetchQuery

namespace Xml

open Text

/-- The names that stand for characters. -/
def namedCharacters : List (Text × Char) :=
  [("lt", '<'), ("gt", '>'), ("amp", '&'), ("apos", '\''), ("quot", '"')]

/-- The character with a number, other than the null character. -/
def scalar (number : Nat) : Except ReferenceFault Char :=
  if number = 0 then .error .nullCharacter
  else if number.isValidChar then .ok (Char.ofNat number)
  else .error (.notScalar number)

/-- The largest number that a character number may have before it is judged. -/
def numberLimit : Nat :=
  0xFFFFFFFF

/-- The character whose number a text writes. A number has no sign. -/
def numberedCharacter (radix : Nat) (digits : Text) : Except ReferenceFault Char :=
  match digits with
  | '+' :: _ => .error .signedNumber
  | '-' :: _ => .error .signedNumber
  | _ =>
      match readNumeral radix numberLimit digits with
      | .error fault => .error (.badNumber fault)
      | .ok number => scalar number

/-- The character that a reference stands for, given what its ampersand and semicolon
enclose and the position of that in the value. -/
def referencedCharacter (start : Nat) (name : Text) : Except ReferenceFault Char :=
  match name with
  | '#' :: 'x' :: digits => numberedCharacter 16 digits
  | '#' :: digits => numberedCharacter 10 digits
  | _ =>
      match namedCharacters.lookup name with
      | some c => .ok c
      | none => .error (.unknownName start (start + byteLength name) name)

/-- A character that may stand between an ampersand and its semicolon. -/
def isNameChar (c : Char) : Bool :=
  !(c == '&' || c == ';')

/-- Decodes what is left of a value of `size` bytes. -/
def decodeFrom (size : Nat) : Text → Except ReferenceFault Text
  | [] => .ok []
  | '&' :: rest =>
      match _stop : rest.dropWhile isNameChar with
      | ';' :: after => do
          let c ← referencedCharacter (size - byteLength rest) (rest.takeWhile isNameChar)
          let more ← decodeFrom size after
          return c :: more
      | _ => .error (.unfinished (size - byteLength ('&' :: rest)) size)
  | c :: rest => do
      let more ← decodeFrom size rest
      return c :: more
termination_by text => text.length
decreasing_by
  · have shorter := (List.dropWhile_sublist isNameChar (l := rest)).length_le
    simp only [_stop, List.length_cons] at shorter ⊢
    omega
  · simp

/-- The text that a value stands for. -/
def decode (value : Text) : Except ReferenceFault Text :=
  decodeFrom (byteLength value) value

end Xml

end FetchQuery
