import Mathlib.Data.List.TakeWhile
import FetchQuery.Proofs.Text.Numeral
import FetchQuery.Proofs.Text.Span

/-!
# JSON texts

What a JSON text says is a tree, and a tree has many texts: blanks may stand around every
value, name and mark, and a character in quotes may be written in several ways. `Spells` is
the grammar, one constructor for each of its rules; `IsJson` is the rule for whole texts.

## Implementation notes

The rules for values, for what stands between brackets and for members call each other. They
are one relation over the parts of a text (`Part`), so that one induction goes through all.
-/

namespace FetchQuery

namespace Json

open Text

/-- What a JSON text says. Numbers stay as they are written. -/
inductive Tree where
  | null
  | bool (value : Bool)
  | number (literal : Text)
  | text (value : Text)
  | list (items : List Tree)
  | object (members : List (Text × Tree))

/-! ### Numbers -/

/-- Digits, at least one, and then something of another kind. -/
def isDigitsThen (behind : Text → Bool) (text : Text) : Bool :=
  !(text.takeWhile Char.isDigit).isEmpty && behind (text.dropWhile Char.isDigit)

/-- A text without one sign at its front. -/
def dropSign : Text → Text
  | '+' :: rest => rest
  | '-' :: rest => rest
  | text => text

/-- An exponent, or nothing. -/
def isExponent : Text → Bool
  | [] => true
  | mark :: rest => (mark == 'e' || mark == 'E') && isDigitsThen List.isEmpty (dropSign rest)

/-- A fraction with or without an exponent, an exponent, or nothing. -/
def isFraction : Text → Bool
  | '.' :: rest => isDigitsThen isExponent rest
  | text => isExponent text

/-- A text in which no zero stands before another digit at the front. -/
def isTrimmed : Text → Bool
  | '0' :: rest => !rest.head?.any Char.isDigit
  | _ => true

/-- A number without a sign. -/
def isUnsigned (literal : Text) : Bool :=
  isTrimmed literal && isDigitsThen isFraction literal

/-- A number: digits without needless zeros before them, and a minus sign, a fraction and an
exponent if one likes. -/
def isNumber : Text → Bool
  | '-' :: literal => isUnsigned literal
  | literal => isUnsigned literal

/-- A character that may stand in a number. -/
def isNumberChar (c : Char) : Bool :=
  c.isDigit || c == '-' || c == '+' || c == '.' || c == 'e' || c == 'E'

/-! ### Texts in quotes -/

/-- The characters that have an escape of one letter, by this letter. -/
def shortEscapes : List (Char × Char) :=
  [('"', '"'), ('\\', '\\'), ('/', '/'), ('b', '\x08'), ('f', '\x0c'), ('n', '\n'), ('r', '\r'),
    ('t', '\t')]

/-- A character that may stand in quotes as it is. -/
def isPlain (c : Char) : Bool :=
  !(c == '"' || c == '\\') && decide (0x20 ≤ c.toNat)

/-- Four hexadecimal digits of a number. -/
def IsUnit (digits : Text) (number : Nat) : Prop :=
  digits.length = 4 ∧ IsNumeral 16 digits number

/-- The ways to write a character in quotes. A character beyond four hexadecimal digits is
escaped as a pair of surrogates. -/
inductive SpellsChar : Char → Text → Prop
  | plain {c : Char} (h : isPlain c = true) : SpellsChar c [c]
  | short {c letter : Char} (h : shortEscapes.lookup letter = some c) :
      SpellsChar c ['\\', letter]
  | unit {c : Char} {digits : Text} (small : c.toNat ≤ 0xFFFF) (h : IsUnit digits c.toNat) :
      SpellsChar c ('\\' :: 'u' :: digits)
  | pair {c : Char} {high low : Text} (large : 0x10000 ≤ c.toNat)
      (hhigh : IsUnit high (0xD800 + (c.toNat - 0x10000) / 0x400))
      (hlow : IsUnit low (0xDC00 + (c.toNat - 0x10000) % 0x400)) :
      SpellsChar c ('\\' :: 'u' :: (high ++ '\\' :: 'u' :: low))

/-- The ways to write a text in quotes, without the quotes. -/
inductive SpellsText : Text → Text → Prop
  | nil : SpellsText [] []
  | cons {c : Char} {text written more : Text} (h : SpellsChar c written)
      (tail : SpellsText text more) : SpellsText (c :: text) (written ++ more)

/-! ### Values -/

/-- A part of a JSON text. -/
inductive Part where
  | value (tree : Tree)
  /-- A value with the blanks around it. -/
  | item (tree : Tree)
  /-- What stands between the brackets of a list that is not empty. -/
  | items (trees : List Tree)
  /-- A member of an object, with the blanks around it. -/
  | member (name : Text) (tree : Tree)
  /-- What stands between the brackets of an object that is not empty. -/
  | members (members : List (Text × Tree))

/-- The ways to write a part. -/
inductive Spells : Part → Text → Prop
  | null : Spells (.value .null) ['n', 'u', 'l', 'l']
  | yes : Spells (.value (.bool true)) ['t', 'r', 'u', 'e']
  | no : Spells (.value (.bool false)) ['f', 'a', 'l', 's', 'e']
  | number {literal : Text} (h : isNumber literal = true) :
      Spells (.value (.number literal)) literal
  | text {value written : Text} (h : SpellsText value written) :
      Spells (.value (.text value)) ('"' :: (written ++ ['"']))
  | noItems {blanks : Text} (h : IsBlanks blanks) :
      Spells (.value (.list [])) ('[' :: (blanks ++ [']']))
  | list {items : List Tree} {written : Text} (h : Spells (.items items) written) :
      Spells (.value (.list items)) ('[' :: (written ++ [']']))
  | noMembers {blanks : Text} (h : IsBlanks blanks) :
      Spells (.value (.object [])) ('\x7b' :: (blanks ++ ['\x7d']))
  | object {members : List (Text × Tree)} {written : Text} (h : Spells (.members members) written) :
      Spells (.value (.object members)) ('\x7b' :: (written ++ ['\x7d']))
  | item {tree : Tree} {before written after : Text} (hbefore : IsBlanks before)
      (h : Spells (.value tree) written) (hafter : IsBlanks after) :
      Spells (.item tree) (before ++ (written ++ after))
  | lastItem {tree : Tree} {written : Text} (h : Spells (.item tree) written) :
      Spells (.items [tree]) written
  | moreItems {tree : Tree} {items : List Tree} {written more : Text}
      (h : Spells (.item tree) written) (tail : Spells (.items items) more) :
      Spells (.items (tree :: items)) (written ++ ',' :: more)
  | member {name : Text} {tree : Tree} {before key between written : Text}
      (hbefore : IsBlanks before) (hname : SpellsText name key) (hbetween : IsBlanks between)
      (h : Spells (.item tree) written) :
      Spells (.member name tree) (before ++ '"' :: (key ++ '"' :: (between ++ ':' :: written)))
  | lastMember {name : Text} {tree : Tree} {written : Text}
      (h : Spells (.member name tree) written) : Spells (.members [(name, tree)]) written
  | moreMembers {name : Text} {tree : Tree} {members : List (Text × Tree)} {written more : Text}
      (h : Spells (.member name tree) written) (tail : Spells (.members members) more) :
      Spells (.members ((name, tree) :: members)) (written ++ ',' :: more)

/-- A whole JSON text for a tree. -/
def IsJson (tree : Tree) (text : Text) : Prop :=
  Spells (.item tree) text

/-! ### The characters of a number -/

theorem isNumberChar_of_isDigit {c : Char} (h : c.isDigit = true) : isNumberChar c = true := by
  simp [isNumberChar, h]

theorem mem_isNumberChar_of_isDigitsThen {behind : Text → Bool} {text : Text}
    (later : ∀ text, behind text = true → ∀ c ∈ text, isNumberChar c = true)
    (h : isDigitsThen behind text = true) : ∀ c ∈ text, isNumberChar c = true := by
  obtain ⟨-, rest⟩ := (Bool.and_eq_true _ _).mp h
  rw [← List.takeWhile_append_dropWhile (p := Char.isDigit) (l := text), List.forall_mem_append]
  exact ⟨fun c inside => isNumberChar_of_isDigit (List.mem_takeWhile_imp inside), later _ rest⟩

theorem mem_isNumberChar_of_isExponent (text : Text) (h : isExponent text = true) :
    ∀ c ∈ text, isNumberChar c = true := by
  cases text with
  | nil => exact nofun
  | cons mark rest =>
      obtain ⟨isMark, digits⟩ := (Bool.and_eq_true _ _).mp h
      have signed : ∀ c ∈ dropSign rest, isNumberChar c = true := by
        apply mem_isNumberChar_of_isDigitsThen _ digits
        rintro _ empty c inside
        rw [List.isEmpty_iff.mp empty] at inside
        exact nomatch inside
      rw [List.forall_mem_cons]
      constructor
      · rcases (Bool.or_eq_true _ _).mp isMark with same | same
        · rw [beq_iff_eq.mp same]
          decide
        · rw [beq_iff_eq.mp same]
          decide
      · unfold dropSign at signed
        split at signed
        · exact List.forall_mem_cons.mpr ⟨by decide, signed⟩
        · exact List.forall_mem_cons.mpr ⟨by decide, signed⟩
        · exact signed

theorem mem_isNumberChar_of_isFraction (text : Text) (h : isFraction text = true) :
    ∀ c ∈ text, isNumberChar c = true := by
  unfold isFraction at h
  split at h
  · exact List.forall_mem_cons.mpr
      ⟨by decide, mem_isNumberChar_of_isDigitsThen mem_isNumberChar_of_isExponent h⟩
  · exact mem_isNumberChar_of_isExponent _ h

/-- Nothing but digits, signs, points and exponent marks stands in a number. -/
theorem mem_isNumberChar_of_isNumber {literal : Text} (h : isNumber literal = true) :
    ∀ c ∈ literal, isNumberChar c = true := by
  have unsigned {literal : Text} (h : isUnsigned literal = true) :
      ∀ c ∈ literal, isNumberChar c = true :=
    mem_isNumberChar_of_isDigitsThen mem_isNumberChar_of_isFraction
      ((Bool.and_eq_true _ _).mp h).2
  unfold isNumber at h
  split at h
  · exact List.forall_mem_cons.mpr ⟨by decide, unsigned h⟩
  · exact unsigned h

theorem ne_nil_of_isNumber {literal : Text} (h : isNumber literal = true) : literal ≠ [] := by
  rintro rfl
  exact nomatch h

/-! ### How a part starts -/

theorem isNumberChar_of_isBlank {c : Char} (h : isBlank c = true) : isNumberChar c = false := by
  simp only [isBlank, Bool.or_eq_true, beq_iff_eq] at h
  rcases h with ((rfl | rfl) | rfl) | rfl <;> decide

/-- The first character that is not blank is there, and ends neither a list nor an object.
There is no blank before it in a value. -/
theorem Spells.start {part : Part} {written : Text} (h : Spells part written) :
    ∃ blanks first more, written = blanks ++ first :: more ∧ IsBlanks blanks ∧
      (∀ tree, part = .value tree → blanks = []) ∧
      isBlank first = false ∧ first ≠ ']' ∧ first ≠ '\x7d' := by
  induction h with
  | number h =>
      obtain ⟨first, more, rfl⟩ := List.exists_cons_of_ne_nil (ne_nil_of_isNumber h)
      have hfirst := mem_isNumberChar_of_isNumber h first (by simp)
      refine ⟨[], first, more, rfl, isBlanks_nil, fun _ _ => rfl, ?_, ?_, ?_⟩
      · by_contra blank
        rw [isNumberChar_of_isBlank (Bool.not_eq_false _ ▸ blank)] at hfirst
        exact nomatch hfirst
      · rintro rfl
        exact absurd hfirst (by decide)
      · rintro rfl
        exact absurd hfirst (by decide)
  | @item _ before _ after hbefore _ hafter ih =>
      obtain ⟨blanks, first, more, rfl, hblanks, -, marked⟩ := ih
      refine ⟨before ++ blanks, first, more ++ after, by simp, ?_, nofun, marked⟩
      exact List.forall_mem_append.mpr ⟨hbefore, hblanks⟩
  | member hbefore =>
      exact ⟨_, '"', _, rfl, hbefore, nofun, by decide, by decide, by decide⟩
  | lastItem _ ih =>
      obtain ⟨blanks, first, more, rfl, hblanks, -, marked⟩ := ih
      exact ⟨blanks, first, more, rfl, hblanks, nofun, marked⟩
  | lastMember _ ih =>
      obtain ⟨blanks, first, more, rfl, hblanks, -, marked⟩ := ih
      exact ⟨blanks, first, more, rfl, hblanks, nofun, marked⟩
  | @moreItems _ _ _ later _ _ ih =>
      obtain ⟨blanks, first, more, rfl, hblanks, -, marked⟩ := ih
      exact ⟨blanks, first, more ++ ',' :: later, by simp, hblanks, nofun, marked⟩
  | @moreMembers _ _ _ _ later _ _ ih =>
      obtain ⟨blanks, first, more, rfl, hblanks, -, marked⟩ := ih
      exact ⟨blanks, first, more ++ ',' :: later, by simp, hblanks, nofun, marked⟩
  | _ => exact ⟨[], _, _, rfl, isBlanks_nil, fun _ _ => rfl, by decide, by decide, by decide⟩

/-- A decimal text is a number. -/
theorem isNumber_decimal (number : Nat) : isNumber (decimal number) = true := by
  have digits : ∀ c ∈ decimal number, c.isDigit = true :=
    fun c => Nat.isDigit_of_mem_toDigits (by decide) (by decide)
  have unsigned : isUnsigned (decimal number) = true := by
    have trimmed : isTrimmed (decimal number) = true := by
      unfold isTrimmed
      split
      · next rest zero =>
        have none : number = 0 := eq_zero_of_head?_decimal (by rw [zero]; rfl)
        rw [none] at zero
        cases zero
        rfl
      · rfl
    have all : (decimal number).takeWhile Char.isDigit = decimal number :=
      List.takeWhile_eq_self_iff.mpr digits
    have nothing : (decimal number).dropWhile Char.isDigit = [] :=
      List.dropWhile_eq_nil_iff.mpr digits
    rw [isUnsigned, trimmed, isDigitsThen, all, nothing, Bool.true_and]
    simpa [isFraction, isExponent] using (isNumeral_decimal number).1
  unfold isNumber
  split
  · next literal minus =>
    exact absurd (digits '-' (by simp [minus])) (by decide)
  · exact unsigned

end Json

end FetchQuery
