import FetchQuery.Proofs.Outcome
import FetchQuery.Proofs.Xml.Reference

/-!
# Values that cannot be decoded

A value that is not written from characters and references has a first ampersand that starts
no reference (`exists_bad_of_not_writes`). The fault of the value is that of this ampersand,
whatever stands behind the semicolon after it, and a range in the fault begins at the ampersand or
right behind it (`decode_grammar`). Which fault it is follows from what stands between the two
marks (`IsReferenceFault`).
-/

namespace FetchQuery

namespace Xml

open Text Outcome

/-! ### Faults of a reference -/

/-- A number that is written with a sign. -/
def IsSigned (digits : Text) : Prop :=
  digits.head? = some '+' ∨ digits.head? = some '-'

/-- What is wrong with the digits of a character number. -/
inductive IsNumberFault (radix : Nat) : Text → ReferenceFault → Prop
  | signed {digits : Text} (sign : IsSigned digits) : IsNumberFault radix digits .signedNumber
  | badNumber {digits : Text} {fault : NumeralFault} (unsigned : ¬ IsSigned digits)
      (bad : IsNumeralFault radix numberLimit digits fault) :
      IsNumberFault radix digits (.badNumber fault)
  | null {digits : Text} (number : IsNumeral radix digits 0) :
      IsNumberFault radix digits .nullCharacter
  | notScalar {digits : Text} {number : Nat} (numeral : IsNumeral radix digits number)
      (small : number ≤ numberLimit) (invalid : ¬ number.isValidChar) :
      IsNumberFault radix digits (.notScalar number)

/-- What is wrong with the text between an ampersand and a semicolon, of which the position is
given. -/
inductive IsReferenceFault (start : Nat) : Text → ReferenceFault → Prop
  | hexadecimal {digits : Text} {fault : ReferenceFault} (bad : IsNumberFault 16 digits fault) :
      IsReferenceFault start ('#' :: 'x' :: digits) fault
  | decimal {digits : Text} {fault : ReferenceFault} (noMark : digits.head? ≠ some 'x')
      (bad : IsNumberFault 10 digits fault) : IsReferenceFault start ('#' :: digits) fault
  | unknownName {name : Text} (noNumber : name.head? ≠ some '#')
      (unknown : ∀ c, ¬ IsReference name c) :
      IsReferenceFault start name (.unknownName start (start + byteLength name) name)

theorem scalar_eq_error_iff {number : Nat} {fault : ReferenceFault} :
    scalar number = .error fault ↔
      (number = 0 ∧ fault = .nullCharacter) ∨
        (¬ number.isValidChar ∧ fault = .notScalar number) := by
  unfold scalar
  split
  · next zero =>
    subst zero
    have valid : Nat.isValidChar 0 := .inl (by decide)
    simp [valid, eq_comm]
  · next nonzero =>
    split
    · next valid => simp [nonzero, valid]
    · next invalid => simp [nonzero, invalid, eq_comm]

/-- A sign is no digit. -/
theorem IsSigned.not_isNumeral {radix number : Nat} {digits : Text} (h : IsSigned digits) :
    ¬ IsNumeral radix digits number := by
  intro numeral
  rcases h with plus | minus
  · exact absurd (numeral.isAlphanum '+' (List.mem_of_mem_head? plus)) (by decide)
  · exact absurd (numeral.isAlphanum '-' (List.mem_of_mem_head? minus)) (by decide)

theorem numberedCharacter_eq_error_iff {radix : Nat} {digits : Text} {fault : ReferenceFault}
    (hradix : 0 < radix) :
    numberedCharacter radix digits = .error fault ↔ IsNumberFault radix digits fault := by
  have signed {digits : Text} (sign : IsSigned digits) :
      (.error .signedNumber : Except ReferenceFault Char) = .error fault ↔
        IsNumberFault radix digits fault := by
    constructor
    · intro h
      cases h
      exact .signed sign
    · intro h
      cases h with
      | signed => rfl
      | badNumber unsigned => exact absurd sign unsigned
      | null number => exact absurd number sign.not_isNumeral
      | notScalar numeral => exact absurd numeral sign.not_isNumeral
  unfold numberedCharacter
  split
  · exact signed (.inl rfl)
  · exact signed (.inr rfl)
  · next notPlus notMinus =>
    have unsigned : ¬ IsSigned digits := by
      rintro (plus | minus)
      · obtain ⟨rest, rfl⟩ := List.head?_eq_some_iff.mp plus
        exact notPlus rest rfl
      · obtain ⟨rest, rfl⟩ := List.head?_eq_some_iff.mp minus
        exact notMinus rest rfl
    cases read : readNumeral radix numberLimit digits with
    | error numeralFault =>
        have bad := (readNumeral_eq_error_iff hradix).mp read
        constructor
        · intro h
          cases h
          exact .badNumber unsigned bad
        · have noNumber {number : Nat} (small : number ≤ numberLimit) :
              ¬ IsNumeral radix digits number := fun numeral =>
            nomatch read.symm.trans ((readNumeral_eq_ok_iff hradix).mpr ⟨numeral, small⟩)
          intro h
          cases h with
          | signed sign => exact absurd sign unsigned
          | badNumber _ bad' =>
              have read' := (readNumeral_eq_error_iff hradix).mpr bad'
              cases read.symm.trans read'
              rfl
          | null number => exact absurd number (noNumber (Nat.zero_le _))
          | notScalar numeral small => exact absurd numeral (noNumber small)
    | ok number =>
        obtain ⟨numeral, small⟩ := (readNumeral_eq_ok_iff hradix).mp read
        have only {other : Nat} (numeral' : IsNumeral radix digits other)
            (small' : other ≤ numberLimit) : other = number := Except.ok.inj
          (((readNumeral_eq_ok_iff hradix).mpr ⟨numeral', small'⟩).symm.trans read)
        simp only [scalar_eq_error_iff]
        constructor
        · rintro (⟨rfl, rfl⟩ | ⟨invalid, rfl⟩)
          · exact .null numeral
          · exact .notScalar numeral small invalid
        · intro h
          cases h with
          | signed sign => exact absurd sign unsigned
          | badNumber _ bad =>
              exact nomatch read.symm.trans ((readNumeral_eq_error_iff hradix).mpr bad)
          | null zero => exact .inl ⟨(only zero (Nat.zero_le _)).symm, rfl⟩
          | notScalar numeral' small' invalid =>
              cases only numeral' small'
              exact .inr ⟨invalid, rfl⟩

theorem referencedCharacter_eq_error_iff {start : Nat} {name : Text} {fault : ReferenceFault} :
    referencedCharacter start name = .error fault ↔ IsReferenceFault start name fault := by
  constructor
  · intro h
    have unknown (c : Char) : ¬ IsReference name c := fun known =>
      nomatch h.symm.trans (referencedCharacter_eq_ok_iff.mpr known)
    unfold referencedCharacter at h
    split at h
    · exact .hexadecimal ((numberedCharacter_eq_error_iff (by decide)).mp h)
    · next digits notMarked =>
      refine .decimal ?_ ((numberedCharacter_eq_error_iff (by decide)).mp h)
      intro marked
      obtain ⟨rest, rfl⟩ := List.head?_eq_some_iff.mp marked
      exact notMarked rest rfl
    · next notHexadecimal notDecimal =>
      split at h
      · exact nomatch h
      · cases h
        refine .unknownName ?_ unknown
        intro numbered
        obtain ⟨rest, rfl⟩ := List.head?_eq_some_iff.mp numbered
        exact notDecimal rest rfl
  · intro h
    cases h with
    | hexadecimal bad => exact (numberedCharacter_eq_error_iff (by decide)).mpr bad
    | @decimal digits _ noMark bad =>
        unfold referencedCharacter
        split
        · next same =>
          cases same
          exact absurd rfl noMark
        · next same =>
          cases same
          exact (numberedCharacter_eq_error_iff (by decide)).mpr bad
        · next other => exact absurd rfl (other digits)
    | unknownName noNumber unknown =>
        cases read : referencedCharacter start name with
        | ok c => exact absurd (referencedCharacter_eq_ok_iff.mp read) (unknown c)
        | error fault =>
            unfold referencedCharacter at read
            split at read
            · exact absurd rfl noNumber
            · exact absurd rfl noNumber
            · split at read
              · exact nomatch read
              · cases read
                rfl

/-! ### The first ampersand that starts no reference -/

/-- A text, from behind an ampersand on, in which the ampersand starts a reference. -/
def StartsReference (text : Text) : Prop :=
  ∃ name c after, text = name ++ ';' :: after ∧ IsReference name c

/-- The first ampersand of a value that starts no reference, by what stands before and behind
it. -/
structure IsFirstBad (value before behind : Text) : Prop where
  split : value = before ++ '&' :: behind
  bad : ¬ StartsReference behind
  first : ∀ earlier later, value = earlier ++ '&' :: later → earlier.length < before.length →
    StartsReference later

/-- What is wrong behind an ampersand at a position that starts no reference, in a value of a
size: there is no semicolon before the next ampersand, or what stands before it is no name of a
character. -/
inductive IsFaultBehind (position size : Nat) : Text → ReferenceFault → Prop
  | closed {name after : Text} {fault : ReferenceFault} (plain : ∀ c ∈ name, isNameChar c = true)
      (bad : IsReferenceFault (position + 1) name fault) :
      IsFaultBehind position size (name ++ ';' :: after) fault
  | unclosed {name after : Text} (plain : ∀ c ∈ name, isNameChar c = true)
      (stop : ∀ c ∈ after.head?, c = '&') :
      IsFaultBehind position size (name ++ after) (.unfinished position size)

/-- A reference does not reach beyond the next ampersand. -/
theorem exists_of_append_eq_append_ampersand {part text earlier later : Text}
    (free : '&' ∉ part) (same : part ++ text = earlier ++ '&' :: later) :
    ∃ between, earlier = part ++ between ∧ text = between ++ '&' :: later := by
  rcases List.append_eq_append_iff.mp same with ⟨between, early, rest⟩ | ⟨between, late, rest⟩
  · exact ⟨between, early, rest⟩
  · cases between with
    | nil => exact ⟨[], by simpa using late.symm, rest.symm⟩
    | cons c between =>
        cases (List.cons.inj rest).1
        exact absurd (by simp [late]) free

theorem IsReference.ampersand_notMem {name : Text} {c : Char} (h : IsReference name c) :
    '&' ∉ name ++ [';'] := by
  rw [List.mem_append, not_or]
  refine ⟨fun inside => ?_, by decide⟩
  exact absurd (h.isNameChar '&' inside) (by decide)

/-- Every ampersand in what writes a text starts a reference. -/
theorem Writes.startsReference {value written text earlier later : Text}
    (h : Writes value written) (same : written ++ text = earlier ++ '&' :: later)
    (inside : earlier.length < written.length) : StartsReference later := by
  induction h generalizing earlier with
  | nil => exact absurd inside (Nat.not_lt_zero _)
  | @char c value written plain _ ih =>
      cases earlier with
      | nil => exact absurd (List.cons.inj same).1 plain
      | cons first earlier =>
          exact ih (List.cons.inj same).2 (Nat.lt_of_succ_lt_succ inside)
  | @reference name c value written h _ ih =>
      cases earlier with
      | nil =>
          refine ⟨name, c, written ++ text, ?_, h⟩
          simpa using (List.cons.inj same).2.symm
      | cons first earlier =>
          have rest : name ++ [';'] ++ (written ++ text) = earlier ++ '&' :: later := by
            simpa using (List.cons.inj same).2
          obtain ⟨between, rfl, tail⟩ :=
            exists_of_append_eq_append_ampersand h.ampersand_notMem rest
          apply ih tail
          simp only [List.length_cons, List.length_append] at inside
          omega

/-- What does not write a text has an ampersand that starts no reference, behind something that
writes a text. -/
theorem exists_bad_of_not_writes {written : Text} (h : ∀ value, ¬ Writes value written) :
    ∃ before behind value, written = before ++ '&' :: behind ∧ Writes value before ∧
      ¬ StartsReference behind := by
  induction size : written.length using Nat.strong_induction_on generalizing written with
  | _ n ih =>
      subst size
      cases written with
      | nil => exact absurd .nil (h [])
      | cons c rest =>
          by_cases ampersand : c = '&'
          · subst ampersand
            by_cases starts : StartsReference rest
            · obtain ⟨name, c, after, rfl, reference⟩ := starts
              have shorter : after.length < ('&' :: (name ++ ';' :: after)).length := by
                simp only [List.length_cons, List.length_append]
                omega
              have unwritten : ∀ value, ¬ Writes value after := fun value more =>
                h _ (.reference reference more)
              obtain ⟨before, behind, value, rfl, writes, bad⟩ := ih _ shorter unwritten rfl
              exact ⟨'&' :: (name ++ ';' :: before), behind, c :: value, by simp,
                .reference reference writes, bad⟩
            · exact ⟨[], rest, [], rfl, .nil, starts⟩
          · have unwritten : ∀ value, ¬ Writes value rest := fun value more =>
              h _ (.char ampersand more)
            obtain ⟨before, behind, value, rfl, writes, bad⟩ :=
              ih _ (Nat.lt_succ_self _) unwritten rfl
            exact ⟨c :: before, behind, c :: value, rfl, .char ampersand writes, bad⟩

namespace IsFirstBad

variable {written before behind before' behind' : Text} {fault : ReferenceFault}

theorem of_writes {value : Text} (h : Writes value before) (bad : ¬ StartsReference behind) :
    IsFirstBad (before ++ '&' :: behind) before behind :=
  ⟨rfl, bad, fun _ _ same inside => h.startsReference same inside⟩

theorem unique (h : IsFirstBad written before behind) (h' : IsFirstBad written before' behind') :
    before = before' ∧ behind = behind' := by
  rcases lt_trichotomy before.length before'.length with shorter | same | longer
  · exact absurd (h'.first before behind h.split shorter) h.bad
  · obtain ⟨rfl, tail⟩ := List.append_inj (h.split.symm.trans h'.split) same
    exact ⟨rfl, (List.cons.inj tail).2⟩
  · exact absurd (h.first before' behind' h'.split longer) h'.bad

theorem not_writes (h : IsFirstBad written before behind) (value : Text) :
    ¬ Writes value written := by
  intro writes
  apply h.bad
  apply writes.startsReference
  · rw [List.append_nil]
    exact h.split
  · simp [h.split]

/-- What stands before the first ampersand that starts no reference writes a text. -/
theorem exists_writes (h : IsFirstBad written before behind) : ∃ value, Writes value before := by
  obtain ⟨before', behind', value, same, writes, bad⟩ := exists_bad_of_not_writes h.not_writes
  have first : IsFirstBad written before' behind' := same ▸ of_writes writes bad
  obtain ⟨rfl, -⟩ := h.unique first
  exact ⟨value, writes⟩

end IsFirstBad

/-! ### The fault of a value -/

/-- The fault of an ampersand that starts no reference is found right behind it. -/
theorem decodeFrom_ampersand_eq_error_iff {position size : Nat} {behind : Text}
    {fault : ReferenceFault} (hsize : position + 1 + byteLength behind = size)
    (bad : ¬ StartsReference behind) :
    decodeFrom size ('&' :: behind) = .error fault ↔
      IsFaultBehind position size behind fault := by
  have start : size - byteLength behind = position + 1 := by omega
  have ampersand : size - byteLength ('&' :: behind) = position := by
    have one : byteLength ('&' :: behind) = 1 + byteLength behind := rfl
    omega
  constructor
  · intro h
    have plain : ∀ c ∈ behind.takeWhile isNameChar, isNameChar c = true := fun c inside =>
      List.mem_takeWhile_imp inside
    have whole := List.takeWhile_append_dropWhile (p := isNameChar) (l := behind)
    rw [decodeFrom] at h
    split at h
    · next after stop =>
      rw [stop] at whole
      rw [start] at h
      cases read : referencedCharacter (position + 1) (behind.takeWhile isNameChar) with
      | ok c =>
          exact absurd ⟨_, c, after, whole.symm, referencedCharacter_eq_ok_iff.mp read⟩ bad
      | error fault' =>
          rw [read] at h
          cases h
          rw [← whole]
          exact .closed plain (referencedCharacter_eq_error_iff.mp read)
    · next other =>
      cases h
      rw [ampersand, ← whole]
      refine .unclosed plain fun c first => ?_
      have marks : isNameChar c = false := head?_dropWhile c first
      obtain ⟨tail, stop⟩ := List.head?_eq_some_iff.mp first
      simp only [isNameChar, Bool.not_eq_false', Bool.or_eq_true, beq_iff_eq] at marks
      rcases marks with rfl | rfl
      · rfl
      · exact absurd stop (other tail)
  · intro h
    cases h with
    | @closed name after _ plain bad =>
        have marks : ∀ c ∈ (';' :: after).head?, isNameChar c = false := by simp [isNameChar]
        have stop := dropWhile_append_of_stop plain marks
        rw [decodeFrom]
        split
        · rw [start, takeWhile_append_of_stop plain marks,
            referencedCharacter_eq_error_iff.mpr bad]
          rfl
        · next other => exact absurd stop (other after)
    | @unclosed name after plain stop =>
        have marks : ∀ c ∈ after.head?, isNameChar c = false := by
          intro c first
          rw [stop c first]
          rfl
        rw [decodeFrom]
        split
        · next tail semicolon =>
          rw [dropWhile_append_of_stop plain marks] at semicolon
          exact absurd (stop ';' (by rw [semicolon]; rfl)) (by decide)
        · rw [ampersand]

/-- The bytes of a value to which a fault points, from the first to the one behind the last. -/
def ReferenceFault.range? : ReferenceFault → Option (Nat × Nat)
  | unfinished start stop => some (start, stop)
  | unknownName start stop _ => some (start, stop)
  | _ => none

/-- Only a name has a range of its own: numbers are found fault with as they are. -/
theorem IsReferenceFault.range_eq {start : Nat} {name : Text} {fault : ReferenceFault}
    (h : IsReferenceFault start name fault) :
    ∀ range ∈ fault.range?, range = (start, start + byteLength name) := by
  have number {radix : Nat} {digits : Text} (bad : IsNumberFault radix digits fault) :
      fault.range? = none := by
    cases bad with
    | signed => rfl
    | badNumber => rfl
    | null => rfl
    | notScalar => rfl
  cases h with
  | hexadecimal bad => simp [number bad]
  | decimal _ bad => simp [number bad]
  | unknownName => simp [ReferenceFault.range?, eq_comm]

theorem IsFaultBehind.range_bounds {position size : Nat} {behind : Text} {fault : ReferenceFault}
    (h : IsFaultBehind position size behind fault)
    (hsize : position + 1 + byteLength behind = size) :
    ∀ range ∈ fault.range?, (range.1 = position ∨ range.1 = position + 1) ∧
      range.1 ≤ range.2 ∧ range.2 ≤ size := by
  intro range given
  cases h with
  | @closed name after _ plain bad =>
      rw [bad.range_eq range given]
      rw [byteLength_append] at hsize
      refine ⟨.inr rfl, ?_, ?_⟩
      · exact Nat.le_add_right _ _
      · simp only
        omega
  | unclosed =>
      cases given
      exact ⟨.inl rfl, by simp only; omega, le_rfl⟩

namespace IsFirstBad

variable {written before behind : Text} {fault : ReferenceFault}

theorem size_eq (h : IsFirstBad written before behind) :
    byteLength before + 1 + byteLength behind = byteLength written := by
  rw [h.split, byteLength_append, Nat.add_assoc]
  rfl

/-- The fault of a value is that of its first ampersand that starts no reference. -/
theorem decode_eq_error_iff (h : IsFirstBad written before behind) :
    decode written = .error fault ↔
      IsFaultBehind (byteLength before) (byteLength written) behind fault := by
  obtain ⟨value, writes⟩ := h.exists_writes
  have read : decode written =
      (decodeFrom (byteLength written) ('&' :: behind)).map (value ++ ·) := by
    rw [← decodeFrom_append writes, ← h.split]
    rfl
  rw [read, ← decodeFrom_ampersand_eq_error_iff h.size_eq h.bad]
  cases decodeFrom (byteLength written) ('&' :: behind) with
  | error fault' => rfl
  | ok more => simp [Except.map]

end IsFirstBad

/-- A value that cannot be decoded has a first ampersand that starts no reference. -/
theorem exists_isFirstBad {written : Text} {fault : ReferenceFault}
    (h : decode written = .error fault) : ∃ before behind, IsFirstBad written before behind := by
  have unwritten : ∀ value, ¬ Writes value written := fun value writes =>
    nomatch h.symm.trans (decode_eq_ok_iff.mpr writes)
  obtain ⟨before, behind, value, rfl, writes, bad⟩ := exists_bad_of_not_writes unwritten
  exact ⟨before, behind, .of_writes writes bad⟩

/-! ### What the fault does not depend on -/

section

variable {position size : Nat} {name after : Text} {fault : ReferenceFault}

theorem isNameChar_semicolon : ∀ c ∈ (';' :: after).head?, isNameChar c = false := by
  simp [isNameChar]

theorem isNameChar_of_ampersand (stop : ∀ c ∈ after.head?, c = '&') :
    ∀ c ∈ after.head?, isNameChar c = false := by
  intro c first
  rw [stop c first]
  rfl

/-- Whether a reference is good depends on nothing behind its semicolon. -/
theorem startsReference_closed_iff (plain : ∀ c ∈ name, isNameChar c = true) :
    StartsReference (name ++ ';' :: after) ↔ ∃ c, IsReference name c := by
  constructor
  · rintro ⟨name', c, after', same, h⟩
    obtain ⟨rfl, -⟩ := eq_of_append_of_stop plain h.isNameChar isNameChar_semicolon
      isNameChar_semicolon same
    exact ⟨c, h⟩
  · rintro ⟨c, h⟩
    exact ⟨name, c, after, rfl, h⟩

theorem not_startsReference_unclosed (plain : ∀ c ∈ name, isNameChar c = true)
    (stop : ∀ c ∈ after.head?, c = '&') : ¬ StartsReference (name ++ after) := by
  rintro ⟨name', c, after', same, h⟩
  obtain ⟨-, rfl⟩ := eq_of_append_of_stop plain h.isNameChar (isNameChar_of_ampersand stop)
    isNameChar_semicolon same
  exact absurd (stop ';' rfl) (by decide)

theorem isFaultBehind_closed_iff (plain : ∀ c ∈ name, isNameChar c = true) :
    IsFaultBehind position size (name ++ ';' :: after) fault ↔
      IsReferenceFault (position + 1) name fault := by
  constructor
  · intro h
    generalize same : name ++ ';' :: after = behind at h
    cases h with
    | closed plain' bad =>
        obtain ⟨rfl, -⟩ := eq_of_append_of_stop plain plain' isNameChar_semicolon
          isNameChar_semicolon same
        exact bad
    | unclosed plain' stop =>
        obtain ⟨-, rfl⟩ := eq_of_append_of_stop plain plain' isNameChar_semicolon
          (isNameChar_of_ampersand stop) same
        exact absurd (stop ';' rfl) (by decide)
  · exact .closed plain

/-- What stands behind the semicolon of the first bad ampersand does not matter. -/
theorem IsFirstBad.decode_closed {written before : Text}
    (h : IsFirstBad written before (name ++ ';' :: after))
    (plain : ∀ c ∈ name, isNameChar c = true) (other : Text) :
    decode (before ++ '&' :: (name ++ ';' :: other)) = decode written := by
  obtain ⟨value, writes⟩ := h.exists_writes
  have bad : ¬ StartsReference (name ++ ';' :: other) := by
    rw [startsReference_closed_iff plain, ← @startsReference_closed_iff name after plain]
    exact h.bad
  have other := IsFirstBad.of_writes writes bad
  cases read : decode written with
  | ok value => exact absurd (decode_eq_ok_iff.mp read) (h.not_writes value)
  | error fault =>
      rw [h.decode_eq_error_iff, isFaultBehind_closed_iff plain] at read
      rw [other.decode_eq_error_iff, isFaultBehind_closed_iff plain]
      exact read

/-- If there is no semicolon before the next ampersand, only the size of the value matters. -/
theorem IsFirstBad.decode_unclosed {written before behind : Text}
    (h : IsFirstBad written before behind) (plain : ∀ c ∈ name, isNameChar c = true)
    (stop : ∀ c ∈ after.head?, c = '&') :
    decode (before ++ '&' :: (name ++ after)) =
      .error (.unfinished (byteLength before) (byteLength (before ++ '&' :: (name ++ after)))) := by
  obtain ⟨value, writes⟩ := h.exists_writes
  have first := IsFirstBad.of_writes writes (not_startsReference_unclosed plain stop)
  exact first.decode_eq_error_iff.mpr (.unclosed plain stop)

end

/-- A value is decoded exactly if it is written from characters other than ampersands and from
references to characters, and to the text that it then writes. Any other value has the fault of
its first ampersand that starts no reference. What stands behind the semicolon of this ampersand
does not matter; if there is no semicolon before the next ampersand, then only the size of the
value does. A range in the fault begins at the ampersand or right behind it, and ends within the
value. -/
theorem decode_grammar (written : Text) :
    (∀ value, decode written = .ok value ↔ Writes value written) ∧
    (∀ fault, decode written = .error fault ↔
      ∃ before behind, IsFirstBad written before behind ∧
        IsFaultBehind (byteLength before) (byteLength written) behind fault) ∧
    (∀ before name after, IsFirstBad written before (name ++ ';' :: after) →
      (∀ c ∈ name, isNameChar c = true) →
      ∀ other, decode (before ++ '&' :: (name ++ ';' :: other)) = decode written) ∧
    (∀ before behind, IsFirstBad written before behind →
      ∀ name after, (∀ c ∈ name, isNameChar c = true) → (∀ c ∈ after.head?, c = '&') →
        decode (before ++ '&' :: (name ++ after)) =
          .error (.unfinished (byteLength before)
            (byteLength (before ++ '&' :: (name ++ after))))) ∧
    ∀ before behind fault, IsFirstBad written before behind → decode written = .error fault →
      ∀ range ∈ fault.range?, (range.1 = byteLength before ∨ range.1 = byteLength before + 1) ∧
        range.1 ≤ range.2 ∧ range.2 ≤ byteLength written := by
  refine ⟨fun value => decode_eq_ok_iff, fun fault => ⟨?_, ?_⟩, ?_, ?_, ?_⟩
  · intro h
    obtain ⟨before, behind, first⟩ := exists_isFirstBad h
    exact ⟨before, behind, first, first.decode_eq_error_iff.mp h⟩
  · rintro ⟨before, behind, first, bad⟩
    exact first.decode_eq_error_iff.mpr bad
  · intro before name after first plain other
    exact first.decode_closed plain other
  · intro before behind first name after plain stop
    exact first.decode_unclosed plain stop
  · intro before behind fault first h
    exact (first.decode_eq_error_iff.mp h).range_bounds first.size_eq

/-- The ampersand before `b` starts no reference, as the next mark is another ampersand. -/
example : decode "é&#x0041;;&b&lt;" = .error (.unfinished 11 17) := by
  decide +kernel

end Xml

end FetchQuery
