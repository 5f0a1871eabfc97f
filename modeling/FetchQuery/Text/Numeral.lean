import FetchQuery.Text.Basic

/-!
# Numerals

Numerals are read digit by digit, from the left, against a largest value. A reading
stops at the first character that is no digit or that carries the value over the limit,
whichever stands first.
-/

namespace FetchQuery

/-- Why a text is no numeral within a limit. -/
inductive NumeralFault where
  | empty
  | badDigit
  | tooLarge
  deriving DecidableEq, Repr

namespace NumeralFault

/-- The wording of a fault. -/
def message : NumeralFault → Text
  | empty => "cannot parse integer from empty string"
  | badDigit => "invalid digit found in string"
  | tooLarge => "number too large to fit in target type"

end NumeralFault

namespace Text

/-- The value of a digit in positional notation of a radix up to 36. -/
def digit? (radix : Nat) (c : Char) : Option Nat :=
  let value :=
    if '0' ≤ c ∧ c ≤ '9' then c.toNat - '0'.toNat
    else if 'a' ≤ c ∧ c ≤ 'z' then c.toNat - 'a'.toNat + 10
    else if 'A' ≤ c ∧ c ≤ 'Z' then c.toNat - 'A'.toNat + 10
    else radix
  if value < radix then some value else none

/-- Carries a value on by the digits of a text. -/
def appendDigits (radix limit : Nat) : Nat → Text → Except NumeralFault Nat
  | value, [] => .ok value
  | value, c :: rest =>
      match digit? radix c with
      | none => .error .badDigit
      | some digit =>
          let next := value * radix + digit
          if next ≤ limit then appendDigits radix limit next rest else .error .tooLarge

/-- Reads a numeral of at least one digit whose value is at most `limit`. -/
def readNumeral (radix limit : Nat) (text : Text) : Except NumeralFault Nat :=
  if text.isEmpty then .error .empty else appendDigits radix limit 0 text

/-- A text without one leading plus sign. -/
def dropPlus : Text → Text
  | '+' :: rest => rest
  | text => text

/-- A decimal numeral, with or without a plus sign, of a value up to `limit`. -/
def readUnsigned (limit : Nat) (text : Text) : Except NumeralFault Nat :=
  readNumeral 10 limit (dropPlus text)

end Text

end FetchQuery
