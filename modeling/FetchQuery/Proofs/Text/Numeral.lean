import Mathlib.Data.List.Forall2
import Mathlib.Data.List.Induction
import Mathlib.Data.Nat.Digits.Defs
import Mathlib.Tactic.IntervalCases
import Mathlib.Tactic.SplitIfs
import FetchQuery.Proofs.Text.Span
import FetchQuery.Text.Numeral

/-!
# Numerals and the numbers they write

A numeral is a text of digits, at least one, and its number is that of positional
notation. Reading digit by digit against a limit finds exactly the numbers up to the
limit, however many leading zeros there are. In any other text the first character that is no
digit, or that carries the value over the limit, is the fault. The decimal text of a number is a
numeral of it.
-/

namespace FetchQuery

namespace Text

/-- The characters of a text are digits of a radix, with these values. -/
abbrev HasDigits (radix : Nat) (text : Text) (digits : List Nat) : Prop :=
  List.Forall₂ (fun c digit => digit? radix c = some digit) text digits

/-- A text writes a number in positional notation, most significant digit first. -/
def IsNumeral (radix : Nat) (text : Text) (number : Nat) : Prop :=
  text ≠ [] ∧ ∃ digits, HasDigits radix text digits ∧ Nat.ofDigits radix digits.reverse = number

/-- Carrying a value on adds what the digits write to the value moved to their left. No
value on the way is above the last one, so that a limit on the last limits all. -/
theorem appendDigits_eq_ok_iff {radix limit value number : Nat} {text : Text}
    (hradix : 0 < radix) (hvalue : value ≤ limit) :
    appendDigits radix limit value text = .ok number ↔
      number ≤ limit ∧ ∃ digits, HasDigits radix text digits ∧
        value * radix ^ digits.length + Nat.ofDigits radix digits.reverse = number := by
  induction text generalizing value with
  | nil =>
      simp only [appendDigits, Except.ok.injEq, HasDigits, List.forall₂_nil_left_iff]
      constructor
      · rintro rfl
        exact ⟨hvalue, [], rfl, by simp⟩
      · rintro ⟨-, digits, rfl, same⟩
        simpa using same
  | cons c rest ih =>
      simp only [appendDigits, HasDigits, List.forall₂_cons_left_iff]
      cases hdigit : digit? radix c with
      | none => simp
      | some digit =>
          have carried (digits : List Nat) :
              value * radix ^ (digit :: digits).length +
                  Nat.ofDigits radix (digit :: digits).reverse =
                (value * radix + digit) * radix ^ digits.length +
                  Nat.ofDigits radix digits.reverse := by
            rw [Nat.ofDigits_reverse_cons, List.length_cons, pow_succ]
            ring
          by_cases hnext : value * radix + digit ≤ limit
          · simp only [hnext, if_true, ih hnext]
            constructor
            · rintro ⟨hnumber, digits, hdigits, same⟩
              exact ⟨hnumber, digit :: digits, ⟨digit, digits, rfl, hdigits, rfl⟩,
                (carried digits).trans same⟩
            · rintro ⟨hnumber, -, ⟨digit', digits, hdigit', hdigits, rfl⟩, same⟩
              cases hdigit'
              exact ⟨hnumber, digits, hdigits, (carried digits).symm.trans same⟩
          · simp only [hnext, if_false, reduceCtorEq, false_iff]
            rintro ⟨hnumber, -, ⟨digit', digits, hdigit', hdigits, rfl⟩, same⟩
            cases hdigit'
            have grows : value * radix + digit ≤
                (value * radix + digit) * radix ^ digits.length :=
              Nat.le_mul_of_pos_right _ (Nat.pow_pos hradix)
            rw [carried] at same
            omega

/-- Exactly the numerals of numbers up to the limit are read. -/
theorem readNumeral_eq_ok_iff {radix limit number : Nat} {text : Text} (hradix : 0 < radix) :
    readNumeral radix limit text = .ok number ↔ IsNumeral radix text number ∧ number ≤ limit := by
  unfold readNumeral IsNumeral
  cases text with
  | nil => simp
  | cons c rest =>
      simp only [List.isEmpty_cons, Bool.false_eq_true, if_false,
        appendDigits_eq_ok_iff hradix (Nat.zero_le limit), zero_mul, zero_add]
      simp [and_comm]

/-- A plus sign in front of a numeral changes nothing. -/
theorem readUnsigned_eq_ok_iff {limit number : Nat} {text : Text} :
    readUnsigned limit text = .ok number ↔
      (∃ sign digits, text = sign ++ digits ∧ (sign = [] ∨ sign = ['+']) ∧
        IsNumeral 10 digits number) ∧ number ≤ limit := by
  have plus : digit? 10 '+' = none := by decide
  rw [readUnsigned, readNumeral_eq_ok_iff (by decide)]
  apply and_congr_left'
  constructor
  · intro numeral
    unfold dropPlus at numeral
    split at numeral
    · next rest => exact ⟨['+'], rest, rfl, .inr rfl, numeral⟩
    · exact ⟨[], text, rfl, .inl rfl, numeral⟩
  · rintro ⟨sign, digits, rfl, rfl | rfl, numeral⟩
    · rw [List.nil_append]
      unfold dropPlus
      split
      · next rest =>
        obtain ⟨-, values, signed, -⟩ := numeral
        cases signed with
        | cons first _ => exact nomatch plus.symm.trans first
      · exact numeral
    · exact numeral

theorem isAlphanum_iff {c : Char} : c.isAlphanum = true ↔
    ('A' ≤ c ∧ c ≤ 'Z') ∨ ('a' ≤ c ∧ c ≤ 'z') ∨ ('0' ≤ c ∧ c ≤ '9') := by
  have ranges : c.isAlphanum = (decide ('A' ≤ c ∧ c ≤ 'Z') ||
      (decide ('a' ≤ c) && decide (c ≤ 'z')) || (decide ('0' ≤ c) && decide (c ≤ '9'))) := rfl
  rw [ranges]
  simp only [Bool.or_eq_true, Bool.and_eq_true, decide_eq_true_eq, or_assoc]

/-- A digit of any radix is an ASCII letter or a decimal digit. -/
theorem isAlphanum_of_digit? {radix digit : Nat} {c : Char} (h : digit? radix c = some digit) :
    c.isAlphanum = true := by
  by_contra other
  simp only [isAlphanum_iff, not_or] at other
  obtain ⟨upper, lower, decimal⟩ := other
  have none_of_radix : digit? radix c = none := by
    simp only [digit?]
    rw [if_neg decimal, if_neg lower, if_neg upper, if_neg (lt_irrefl radix)]
  simp [none_of_radix] at h

/-- Nothing but digits stands in a numeral. -/
theorem IsNumeral.isAlphanum {radix number : Nat} {text : Text} (h : IsNumeral radix text number) :
    ∀ c ∈ text, c.isAlphanum = true := by
  obtain ⟨-, digits, hdigits, -⟩ := h
  induction hdigits with
  | nil => simp
  | cons hdigit _ ih => exact List.forall_mem_cons.mpr ⟨isAlphanum_of_digit? hdigit, ih⟩

/-! ### Texts that are no numerals -/

/-- Why a text writes no number up to a limit. What counts is the first character that is no
digit, or that carries the number over the limit. -/
inductive IsNumeralFault (radix limit : Nat) : Text → NumeralFault → Prop
  | empty : IsNumeralFault radix limit [] .empty
  | badDigit {lead rest : Text} {digits : List Nat} {c : Char}
      (hlead : HasDigits radix lead digits) (small : Nat.ofDigits radix digits.reverse ≤ limit)
      (bad : digit? radix c = none) : IsNumeralFault radix limit (lead ++ c :: rest) .badDigit
  | tooLarge {lead rest : Text} {digits : List Nat} {c : Char} {digit : Nat}
      (hlead : HasDigits radix lead digits) (small : Nat.ofDigits radix digits.reverse ≤ limit)
      (good : digit? radix c = some digit)
      (large : limit < Nat.ofDigits radix (digits ++ [digit]).reverse) :
      IsNumeralFault radix limit (lead ++ c :: rest) .tooLarge

/-- Digits are carried on up to the first character that stops the reading. -/
theorem appendDigits_eq_error_iff {radix limit value : Nat} {text : Text} {fault : NumeralFault} :
    appendDigits radix limit value text = .error fault ↔
      ∃ lead c rest carried, text = lead ++ c :: rest ∧
        appendDigits radix limit value lead = .ok carried ∧
        ((digit? radix c = none ∧ fault = .badDigit) ∨
          ∃ digit, digit? radix c = some digit ∧ limit < carried * radix + digit ∧
            fault = .tooLarge) := by
  induction text generalizing value with
  | nil => simp [appendDigits]
  | cons c text ih =>
      constructor
      · intro h
        simp only [appendDigits] at h
        split at h
        · next bad =>
          cases h
          exact ⟨[], c, text, value, rfl, rfl, .inl ⟨bad, rfl⟩⟩
        · next digit good =>
          split at h
          · next small =>
            obtain ⟨lead, stop, rest, carried, rfl, read, stops⟩ := ih.mp h
            refine ⟨c :: lead, stop, rest, carried, rfl, ?_, stops⟩
            simpa only [appendDigits, good, if_pos small] using read
          · next large =>
            cases h
            exact ⟨[], c, text, value, rfl, rfl, .inr ⟨digit, good, not_le.mp large, rfl⟩⟩
      · rintro ⟨lead, stop, rest, carried, same, read, stops⟩
        cases lead with
        | nil =>
            cases same
            cases read
            rcases stops with ⟨bad, rfl⟩ | ⟨digit, good, large, rfl⟩
            · simp only [appendDigits, bad]
            · simp only [appendDigits, good, if_neg (not_le.mpr large)]
        | cons first lead =>
            cases same
            cases good : digit? radix c with
            | none => simp [appendDigits, good] at read
            | some digit =>
                by_cases small : value * radix + digit ≤ limit
                · simp only [appendDigits, good, if_pos small] at read ⊢
                  exact ih.mpr ⟨lead, stop, rest, carried, rfl, read, stops⟩
                · simp [appendDigits, good, small] at read

theorem readNumeral_eq_error_iff {radix limit : Nat} {text : Text} {fault : NumeralFault}
    (hradix : 0 < radix) :
    readNumeral radix limit text = .error fault ↔ IsNumeralFault radix limit text fault := by
  have leads {lead : Text} {carried : Nat} : appendDigits radix limit 0 lead = .ok carried ↔
      carried ≤ limit ∧
        ∃ digits, HasDigits radix lead digits ∧ Nat.ofDigits radix digits.reverse = carried := by
    simp only [appendDigits_eq_ok_iff hradix (Nat.zero_le limit), zero_mul, zero_add]
  have carry (digits : List Nat) (digit : Nat) : Nat.ofDigits radix (digits ++ [digit]).reverse =
      Nat.ofDigits radix digits.reverse * radix + digit := by
    rw [List.reverse_append, List.reverse_singleton, List.singleton_append, Nat.ofDigits_cons,
      Nat.add_comm, Nat.mul_comm]
  constructor
  · intro h
    cases text with
    | nil =>
        cases h
        exact .empty
    | cons first text =>
        obtain ⟨lead, c, rest, carried, split, read, stops⟩ := appendDigits_eq_error_iff.mp h
        obtain ⟨small, digits, hlead, rfl⟩ := leads.mp read
        rw [split]
        rcases stops with ⟨bad, rfl⟩ | ⟨digit, good, large, rfl⟩
        · exact .badDigit hlead small bad
        · rw [← carry] at large
          exact .tooLarge hlead small good large
  · intro h
    have nonempty (lead rest : Text) (c : Char) : (lead ++ c :: rest).isEmpty = false := by
      cases lead <;> rfl
    cases h with
    | empty => rfl
    | @badDigit lead rest digits c hlead small bad =>
        rw [readNumeral, nonempty]
        have read := leads.mpr ⟨small, digits, hlead, rfl⟩
        exact appendDigits_eq_error_iff.mpr ⟨lead, c, rest, _, rfl, read, .inl ⟨bad, rfl⟩⟩
    | @tooLarge lead rest digits c digit hlead small good large =>
        rw [readNumeral, nonempty]
        have read := leads.mpr ⟨small, digits, hlead, rfl⟩
        rw [carry] at large
        exact appendDigits_eq_error_iff.mpr
          ⟨lead, c, rest, _, rfl, read, .inr ⟨digit, good, large, rfl⟩⟩

/-! ### Decimal digits -/

theorem digit?_ten_eq_some_iff {c : Char} {digit : Nat} :
    digit? 10 c = some digit ↔ c.isDigit = true ∧ c.toNat - '0'.toNat = digit := by
  have decimal : c.isDigit = true ↔ '0' ≤ c ∧ c ≤ '9' := by
    simp [Char.isDigit, Char.le_def]
  rw [decimal]
  by_cases range : '0' ≤ c ∧ c ≤ '9'
  · have small : c.toNat - '0'.toNat < 10 := by
      have last : c.toNat ≤ 57 := range.2
      have zero : '0'.toNat = 48 := rfl
      omega
    simp only [digit?, if_pos range, if_pos small, Option.some.injEq]
    exact (and_iff_right range).symm
  · have none_of_letter : digit? 10 c = none := by
      rw [digit?, if_neg range, if_neg]
      split_ifs <;> omega
    simp [none_of_letter, range]

theorem hasDigits_ten_iff {text : Text} {digits : List Nat} :
    HasDigits 10 text digits ↔ (∀ c ∈ text, c.isDigit = true) ∧
      text.map (fun c => c.toNat - '0'.toNat) = digits := by
  induction text generalizing digits with
  | nil =>
      rw [HasDigits, List.forall₂_nil_left_iff]
      exact ⟨fun same => ⟨nofun, same.symm⟩, fun ⟨_, same⟩ => same.symm⟩
  | cons c text ih =>
      rw [HasDigits, List.forall₂_cons_left_iff, List.forall_mem_cons, List.map_cons]
      constructor
      · rintro ⟨digit, digits, first, later, rfl⟩
        obtain ⟨isDigit, rfl⟩ := digit?_ten_eq_some_iff.mp first
        obtain ⟨areDigits, rfl⟩ := ih.mp later
        exact ⟨⟨isDigit, areDigits⟩, rfl⟩
      · rintro ⟨⟨isDigit, areDigits⟩, rfl⟩
        exact ⟨_, _, digit?_ten_eq_some_iff.mpr ⟨isDigit, rfl⟩, ih.mpr ⟨areDigits, rfl⟩, rfl⟩

/-- A decimal numeral is a text of ASCII digits, at least one. -/
theorem isNumeral_ten_iff {text : Text} {number : Nat} :
    IsNumeral 10 text number ↔
      text ≠ [] ∧ (∀ c ∈ text, c.isDigit = true) ∧ Nat.ofDigitChars 10 text 0 = number := by
  have values : Nat.ofDigits 10 (text.map fun c => c.toNat - '0'.toNat).reverse =
      Nat.ofDigitChars 10 text 0 := by
    induction text using List.reverseRecOn with
    | nil => rfl
    | append_singleton text c ih =>
        rw [List.map_append, List.reverse_append, List.map_singleton, List.reverse_singleton,
          List.singleton_append, Nat.ofDigits_cons, ih, Nat.ofDigitChars_append, Nat.add_comm]
        rfl
  simp only [IsNumeral, hasDigits_ten_iff]
  apply and_congr_right'
  constructor
  · rintro ⟨_, ⟨all, rfl⟩, same⟩
    exact ⟨all, values.symm.trans same⟩
  · rintro ⟨all, same⟩
    exact ⟨_, ⟨all, rfl⟩, values.trans same⟩

/-! ### Numerals that are written -/

theorem digit?_digitChar {digit : Nat} (h : digit < 10) :
    digit? 10 digit.digitChar = some digit := by
  interval_cases digit <;> decide

/-- The decimal text of a number is its numeral. -/
theorem isNumeral_decimal (number : Nat) : IsNumeral 10 (decimal number) number := by
  unfold decimal
  induction number using Nat.strong_induction_on with
  | _ number ih =>
      rw [Nat.toDigits_eq_if (by decide)]
      split
      · next small =>
        exact ⟨by simp, [number], by simp [digit?_digitChar small], by simp⟩
      · next large =>
        obtain ⟨-, digits, hdigits, same⟩ := ih (number / 10) (by omega)
        have hlast := digit?_digitChar (Nat.mod_lt number (by decide : 0 < 10))
        refine ⟨by simp, digits ++ [number % 10],
          List.rel_append hdigits (.cons hlast .nil), ?_⟩
        rw [List.reverse_append, List.reverse_singleton, List.singleton_append,
          Nat.ofDigits_cons, same]
        exact Nat.mod_add_div number 10

/-- Only the decimal text of zero starts with a zero. -/
theorem eq_zero_of_head?_decimal {number : Nat} (h : (decimal number).head? = some '0') :
    number = 0 := by
  unfold decimal at h
  induction number using Nat.strong_induction_on with
  | _ number ih =>
      rw [Nat.toDigits_eq_if (by decide)] at h
      split at h
      · interval_cases number
        · rfl
        all_goals exact absurd h (by decide)
      · rw [List.head?_append_of_ne_nil _ Nat.toDigits_ne_nil] at h
        have quotient := ih (number / 10) (by omega) h
        omega

/-- A letter or digit is no white space. -/
theorem isWhiteSpace_of_isAlphanum {c : Char} (h : c.isAlphanum = true) :
    isWhiteSpace c = false := by
  simp only [isAlphanum_iff, Char.le_def, UInt32.le_iff_toNat_le, Char.toNat_val,
    Char.reduceToNat] at h
  simp only [isWhiteSpace, whiteSpaceRanges, List.any_cons, List.any_nil, Bool.or_eq_false_iff,
    Bool.and_eq_false_iff, decide_eq_false_iff_not, and_true]
  omega

/-- There is nothing to trim about a decimal text. -/
theorem trim_decimal (number : Nat) : trim (decimal number) = decimal number := by
  have visible (c : Char) (inside : c ∈ decimal number) : isWhiteSpace c = false :=
    isWhiteSpace_of_isAlphanum ((isNumeral_decimal number).isAlphanum c inside)
  have trimmed := trim_append (List.forall_mem_nil _) (List.forall_mem_nil _)
    (fun c first => visible c (List.mem_of_mem_head? first))
    (fun c last => visible c (List.mem_of_getLast? last)) (isNumeral_decimal number).1
  rwa [List.nil_append, List.append_nil] at trimmed

/-- A number within a limit is read from its decimal text. -/
theorem readUnsigned_decimal {limit number : Nat} (h : number ≤ limit) :
    readUnsigned limit (decimal number) = .ok number :=
  readUnsigned_eq_ok_iff.mpr ⟨⟨[], decimal number, rfl, .inl rfl, isNumeral_decimal number⟩, h⟩

end Text

end FetchQuery
