import FetchQuery.Outcome
import FetchQuery.Proofs.Text.Numeral
import FetchQuery.Proofs.Text.Span
import FetchQuery.Xml.Reference

/-!
# Ways to write a value

A value is written character by character: as it stands, unless it is an ampersand, by
one of five names, or by its number in decimal or hexadecimal digits. `IsReference` and
`Writes` say this without reading anything. Decoding undoes exactly these ways
(`decode_eq_ok_iff`).
-/

namespace FetchQuery

namespace Xml

open Text Outcome

/-- What stands between the ampersand and the semicolon of a reference to a character. -/
inductive IsReference : Text → Char → Prop
  | lt : IsReference "lt" '<'
  | gt : IsReference "gt" '>'
  | amp : IsReference "amp" '&'
  | apos : IsReference "apos" '\''
  | quot : IsReference "quot" '"'
  | decimal {digits : Text} {c : Char} (number : IsNumeral 10 digits c.toNat)
      (notNull : c ≠ '\x00') : IsReference ('#' :: digits) c
  | hexadecimal {digits : Text} {c : Char} (number : IsNumeral 16 digits c.toNat)
      (notNull : c ≠ '\x00') : IsReference ('#' :: 'x' :: digits) c

/-- The ways to write a value, given first. -/
inductive Writes : Text → Text → Prop
  | nil : Writes [] []
  | char {c : Char} {value written : Text} (plain : c ≠ '&') (more : Writes value written) :
      Writes (c :: value) (c :: written)
  | reference {name : Text} {c : Char} {value written : Text} (h : IsReference name c)
      (more : Writes value written) : Writes (c :: value) ('&' :: (name ++ ';' :: written))

/-! ### Numbers of characters -/

theorem scalar_eq_ok_iff {number : Nat} {c : Char} :
    scalar number = .ok c ↔ number = c.toNat ∧ c ≠ '\x00' := by
  have null {c : Char} (h : c.toNat = 0) : c = '\x00' := Char.toNat_inj.mp h
  unfold scalar
  split
  · next zero =>
    simp only [reduceCtorEq, false_iff, not_and, not_not]
    intro same
    exact null (same.symm.trans zero)
  · next nonzero =>
    split
    · next valid =>
      have back : (Char.ofNat number).toNat = number := by
        rw [Char.ofNat, dif_pos valid]
        rfl
      constructor
      · intro h
        cases h
        refine ⟨back.symm, fun h => nonzero ?_⟩
        rw [← back, h]
        rfl
      · rintro ⟨rfl, -⟩
        rw [Char.ofNat_toNat]
    · next invalid =>
      simp only [reduceCtorEq, false_iff, not_and]
      rintro rfl
      exact absurd c.valid invalid

/-- The numbers of characters are below the limit on numerals. -/
theorem toNat_le_numberLimit (c : Char) : c.toNat ≤ numberLimit := by
  have := c.valid
  simp only [numberLimit, UInt32.isValidChar, Nat.isValidChar, Char.toNat] at this ⊢
  omega

theorem numberedCharacter_eq_ok_iff {radix : Nat} {digits : Text} {c : Char}
    (hradix : 0 < radix) :
    numberedCharacter radix digits = .ok c ↔
      IsNumeral radix digits c.toNat ∧ c ≠ '\x00' := by
  unfold numberedCharacter
  split
  · refine ⟨(nomatch ·), fun h => ?_⟩
    simpa using h.1.isAlphanum '+' (by simp)
  · refine ⟨(nomatch ·), fun h => ?_⟩
    simpa using h.1.isAlphanum '-' (by simp)
  · cases read : readNumeral radix numberLimit digits with
    | error fault =>
        refine ⟨(nomatch ·), fun h => ?_⟩
        have := (readNumeral_eq_ok_iff hradix).mpr ⟨h.1, toNat_le_numberLimit c⟩
        simp [read] at this
    | ok number =>
        have numeral := ((readNumeral_eq_ok_iff hradix).mp read).1
        simp only [scalar_eq_ok_iff]
        constructor
        · rintro ⟨rfl, notNull⟩
          exact ⟨numeral, notNull⟩
        · rintro ⟨numeral', notNull⟩
          have := (readNumeral_eq_ok_iff hradix).mpr ⟨numeral', toNat_le_numberLimit c⟩
          exact ⟨Except.ok.inj (read.symm.trans this), notNull⟩

/-! ### References and values -/

/-- Digits of a radix up to ten are no letters. -/
theorem not_isNumeral_ten_cons_x {digits : Text} {number : Nat} :
    ¬ IsNumeral 10 ('x' :: digits) number := by
  rintro ⟨-, digits, hdigits, -⟩
  have no_digit : digit? 10 'x' = none := by decide
  cases hdigits with
  | cons hdigit _ => simp [no_digit] at hdigit

theorem referencedCharacter_eq_ok_iff {start : Nat} {name : Text} {c : Char} :
    referencedCharacter start name = .ok c ↔ IsReference name c := by
  constructor
  · intro h
    unfold referencedCharacter at h
    split at h
    · next digits =>
      obtain ⟨number, notNull⟩ := (numberedCharacter_eq_ok_iff (by decide)).mp h
      exact .hexadecimal number notNull
    · next digits _ =>
      obtain ⟨number, notNull⟩ := (numberedCharacter_eq_ok_iff (by decide)).mp h
      exact .decimal number notNull
    · split at h
      · next found =>
        cases h
        obtain ⟨before, after, same, -⟩ := List.lookup_eq_some_iff.mp found
        have listed : (name, c) ∈ namedCharacters := by simp [same]
        simp only [namedCharacters, List.mem_cons, Prod.mk.injEq, List.not_mem_nil,
          or_false] at listed
        rcases listed with ⟨rfl, rfl⟩ | ⟨rfl, rfl⟩ | ⟨rfl, rfl⟩ | ⟨rfl, rfl⟩ | ⟨rfl, rfl⟩
        · exact .lt
        · exact .gt
        · exact .amp
        · exact .apos
        · exact .quot
      · simp at h
  · intro h
    cases h with
    | lt => simp [referencedCharacter, namedCharacters]
    | gt => simp [referencedCharacter, namedCharacters, List.lookup_cons]
    | amp => simp [referencedCharacter, namedCharacters, List.lookup_cons]
    | apos => simp [referencedCharacter, namedCharacters, List.lookup_cons]
    | quot => simp [referencedCharacter, namedCharacters, List.lookup_cons]
    | hexadecimal number notNull =>
        exact (numberedCharacter_eq_ok_iff (by decide)).mpr ⟨number, notNull⟩
    | @decimal digits _ number notNull =>
        have decimal := (numberedCharacter_eq_ok_iff (by decide)).mpr ⟨number, notNull⟩
        unfold referencedCharacter
        split
        · next same =>
          cases same
          exact absurd number not_isNumeral_ten_cons_x
        · next same =>
          cases same
          exact decimal
        · next other => exact absurd rfl (other digits)

/-- No ampersand, semicolon or quote stands in a reference. -/
theorem IsReference.plain {name : Text} {c : Char} (h : IsReference name c) :
    ∀ x ∈ name, x.isAlphanum = true ∨ x = '#' := by
  cases h with
  | decimal number _ => simpa using fun x hx => Or.inl (number.isAlphanum x hx)
  | hexadecimal number _ => simpa using fun x hx => Or.inl (number.isAlphanum x hx)
  | lt => simp
  | gt => simp
  | amp => simp
  | apos => simp
  | quot => simp

theorem isNameChar_of_isAlphanum {c : Char} (h : c.isAlphanum = true) : isNameChar c = true := by
  by_contra other
  simp only [isNameChar, Bool.not_eq_true, Bool.not_eq_false', Bool.or_eq_true, beq_iff_eq] at other
  rcases other with rfl | rfl <;> simp at h

theorem IsReference.isNameChar {name : Text} {c : Char} (h : IsReference name c) :
    ∀ x ∈ name, isNameChar x = true := by
  intro x hx
  rcases h.plain x hx with letter | rfl
  · exact isNameChar_of_isAlphanum letter
  · decide

/-- What writes a text is decoded to it, whatever follows. -/
theorem decodeFrom_append {size : Nat} {value written : Text} (h : Writes value written)
    (text : Text) :
    decodeFrom size (written ++ text) = (decodeFrom size text).map (value ++ ·) := by
  induction h with
  | nil =>
      rw [List.nil_append]
      cases decodeFrom size text with
      | error fault => rfl
      | ok more => rfl
  | @char c value written plain _ ih =>
      rw [List.cons_append, decodeFrom, ih]
      · cases decodeFrom size text with
        | error fault => rfl
        | ok more => rfl
      · exact plain
  | @reference name c value written h _ ih =>
      have semicolon : ∀ x ∈ (';' :: (written ++ text)).head?, isNameChar x = false := by
        simp [Xml.isNameChar]
      have stop := dropWhile_append_of_stop h.isNameChar semicolon
      have start := takeWhile_append_of_stop h.isNameChar semicolon
      rw [List.cons_append, List.append_assoc, List.cons_append, decodeFrom]
      split
      · next after stop' =>
        cases stop.symm.trans stop'
        rw [start, referencedCharacter_eq_ok_iff.mpr h, ih]
        cases decodeFrom size text with
        | error fault => rfl
        | ok more => rfl
      · next other => exact absurd stop (other (written ++ text))

/-- A value is decoded exactly when it writes a text, and to that text. -/
theorem decodeFrom_eq_ok_iff {size : Nat} {written value : Text} :
    decodeFrom size written = .ok value ↔ Writes value written := by
  constructor
  · intro h
    fun_induction decodeFrom size written generalizing value with
    | case1 =>
        cases h
        exact .nil
    | case2 rest after stop ih =>
        obtain ⟨c, hc, h⟩ := bind_eq_ok_iff.mp h
        obtain ⟨more, hmore, h⟩ := bind_eq_ok_iff.mp h
        cases h
        have whole := List.takeWhile_append_dropWhile (p := isNameChar) (l := rest)
        rw [stop] at whole
        rw [← whole]
        exact .reference (referencedCharacter_eq_ok_iff.mp hc) (ih hmore)
    | case3 => simp at h
    | case4 c rest plain ih =>
        obtain ⟨more, hmore, h⟩ := bind_eq_ok_iff.mp h
        cases h
        exact .char plain (ih hmore)
  · intro h
    have read := @decodeFrom_append size value written h []
    simpa [decodeFrom, Except.map] using read

/-- Decoding undoes every way to write a value, and nothing else has a decoding. -/
theorem decode_eq_ok_iff {written value : Text} :
    decode written = .ok value ↔ Writes value written :=
  decodeFrom_eq_ok_iff

end Xml

end FetchQuery
