import FetchQuery.Proofs.Json.Grammar

/-!
# Reading JSON

`Tree.read?` reads a JSON text from the left, and never goes back. Every text for a tree is read
as this tree (`read?_of_isJson`), so no text is one for two trees.

## Implementation notes

The readers of this module carry a bound on how deep they may go. It is the length of the text,
which no text needs more than, and `Tree.read?` hides it.
-/

namespace FetchQuery

namespace Json

open Text

/-- The character that a backslash, an `u` and four digits stand for, or half of it. -/
def readUnit (text : Text) : Option (Nat × Text) :=
  match readNumeral 16 0xFFFF (text.take 4) with
  | .ok number => if (text.take 4).length = 4 then some (number, text.drop 4) else none
  | .error _ => none

/-- The character behind a backslash and an `u`. Half a pair of surrogates is none. -/
def readEscaped (text : Text) : Option (Char × Text) :=
  match readUnit text with
  | none => none
  | some (high, rest) =>
      if 0xD800 ≤ high ∧ high ≤ 0xDBFF then
        match rest with
        | '\\' :: 'u' :: rest =>
            match readUnit rest with
            | none => none
            | some (low, rest) =>
                if 0xDC00 ≤ low ∧ low ≤ 0xDFFF then
                  some (Char.ofNat (0x10000 + (high - 0xD800) * 0x400 + (low - 0xDC00)), rest)
                else none
        | _ => none
      else if high.isValidChar then some (Char.ofNat high, rest)
      else none

/-- The first character of what is in quotes. -/
def readChar : Text → Option (Char × Text)
  | [] => none
  | '\\' :: 'u' :: rest => readEscaped rest
  | '\\' :: letter :: rest => (shortEscapes.lookup letter).map (·, rest)
  | c :: rest => if isPlain c then some (c, rest) else none

/-- What is in quotes, from behind the first quote. -/
def readText : Nat → Text → Option (Text × Text)
  | 0, _ => none
  | _ + 1, '"' :: rest => some ([], rest)
  | bound + 1, text =>
      match readChar text with
      | none => none
      | some (c, rest) => (readText bound rest).map fun (more, rest) => (c :: more, rest)

/-- A number. It ends where no character of a number follows. -/
def readNumber (text : Text) : Option (Tree × Text) :=
  let literal := text.takeWhile isNumberChar
  if isNumber literal then some (.number literal, text.dropWhile isNumberChar) else none

/-- What a reader reads, with the blanks before and behind it. -/
def padded {α : Type} (read : Text → Option (α × Text)) (text : Text) : Option (α × Text) :=
  (read (dropBlanks text)).map fun (value, rest) => (value, dropBlanks rest)

/-- What a reader reads, again and again between commas, up to a closing mark. -/
def readMany {α : Type} (read : Text → Option (α × Text)) (close : Char) :
    Nat → Text → Option (List α × Text)
  | 0, _ => none
  | bound + 1, text =>
      match read text with
      | some (first, mark :: rest) =>
          if mark == close then some ([first], rest)
          else if mark == ',' then
            (readMany read close bound rest).map fun (more, rest) => (first :: more, rest)
          else none
      | _ => none

/-- What is between brackets, from behind the first bracket. -/
def readBrackets {α : Type} (read : Text → Option (α × Text)) (close : Char) (bound : Nat)
    (text : Text) : Option (List α × Text) :=
  match dropBlanks text with
  | [] => none
  | mark :: rest => if mark == close then some ([], rest) else readMany read close bound text

/-- A member of an object with the blanks around it. -/
def readMember (readValue : Text → Option (Tree × Text)) (bound : Nat) (text : Text) :
    Option ((Text × Tree) × Text) :=
  match dropBlanks text with
  | '"' :: rest =>
      match readText bound rest with
      | none => none
      | some (name, rest) =>
          match dropBlanks rest with
          | ':' :: rest => (padded readValue rest).map fun (tree, rest) => ((name, tree), rest)
          | _ => none
  | _ => none

/-- The value at the front of a text. -/
def readValue : Nat → Text → Option (Tree × Text)
  | 0, _ => none
  | bound + 1, text =>
      match readNumber text with
      | some number => some number
      | none =>
          match text with
          | 'n' :: 'u' :: 'l' :: 'l' :: rest => some (.null, rest)
          | 't' :: 'r' :: 'u' :: 'e' :: rest => some (.bool true, rest)
          | 'f' :: 'a' :: 'l' :: 's' :: 'e' :: rest => some (.bool false, rest)
          | '"' :: rest => (readText bound rest).map fun (value, rest) => (.text value, rest)
          | '[' :: rest =>
              (readBrackets (padded (readValue bound)) ']' bound rest).map
                fun (items, rest) => (.list items, rest)
          | '\x7b' :: rest =>
              (readBrackets (readMember (readValue bound) bound) '\x7d' bound rest).map
                fun (members, rest) => (.object members, rest)
          | _ => none

/-- The tree that a JSON text is for. -/
def Tree.read? (text : Text) : Option Tree :=
  match padded (readValue text.length) text with
  | some (tree, []) => some tree
  | _ => none

/-! ### Texts in quotes -/

theorem readUnit_append {digits : Text} {number : Nat} (h : IsUnit digits number)
    (small : number ≤ 0xFFFF) (rest : Text) : readUnit (digits ++ rest) = some (number, rest) := by
  obtain ⟨length, numeral⟩ := h
  have front : (digits ++ rest).take 4 = digits := List.take_left' length
  have back : (digits ++ rest).drop 4 = rest := List.drop_left' length
  have read : readNumeral 16 0xFFFF digits = .ok number :=
    (readNumeral_eq_ok_iff (by decide)).mpr ⟨numeral, small⟩
  rw [readUnit, front, back, read]
  exact if_pos length

/-- No character has the number of a surrogate or one above all. -/
theorem toNat_bounds (c : Char) : (c.toNat < 0xD800 ∨ 0xDFFF < c.toNat) ∧ c.toNat < 0x110000 := by
  have valid : c.toNat < 0xD800 ∨ 0xDFFF < c.toNat ∧ c.toNat < 0x110000 := c.valid
  omega

theorem readChar_append {c : Char} {written : Text} (h : SpellsChar c written) (rest : Text) :
    readChar (written ++ rest) = some (c, rest) := by
  have bounds := toNat_bounds c
  cases h with
  | plain h =>
      have slash : c ≠ '\\' := by
        rintro rfl
        exact absurd h (by decide)
      rw [List.singleton_append]
      unfold readChar
      split
      · next same => cases same
      · next same => exact absurd (List.cons.inj same).1 slash
      · next same => exact absurd (List.cons.inj same).1 slash
      · next same =>
        cases same
        exact if_pos h
  | @short letter h =>
      have notUnit : letter ≠ 'u' := by
        rintro rfl
        have none : shortEscapes.lookup 'u' = none := by decide
        rw [none] at h
        cases h
      change readChar ('\\' :: letter :: rest) = _
      unfold readChar
      split
      · next same => cases same
      · next same => exact absurd (List.cons.inj (List.cons.inj same).2).1 notUnit
      · next same =>
        cases same
        rw [h]
        rfl
      · next other same =>
        cases same
        exact (other letter rest rfl rfl).elim
  | unit small h =>
      have single : ¬ (0xD800 ≤ c.toNat ∧ c.toNat ≤ 0xDBFF) := by omega
      have valid : c.toNat.isValidChar := c.valid
      change readEscaped (_ ++ rest) = _
      simp only [readEscaped, readUnit_append h small, if_neg single, if_pos valid,
        Char.ofNat_toNat]
  | @pair high low large hhigh hlow =>
      have isHigh : 0xD800 ≤ 0xD800 + (c.toNat - 0x10000) / 0x400 ∧
          0xD800 + (c.toNat - 0x10000) / 0x400 ≤ 0xDBFF := by omega
      have isLow : 0xDC00 ≤ 0xDC00 + (c.toNat - 0x10000) % 0x400 ∧
          0xDC00 + (c.toNat - 0x10000) % 0x400 ≤ 0xDFFF := by omega
      have whole : 0x10000 + (0xD800 + (c.toNat - 0x10000) / 0x400 - 0xD800) * 0x400 +
          (0xDC00 + (c.toNat - 0x10000) % 0x400 - 0xDC00) = c.toNat := by omega
      have spelled : ('\\' :: 'u' :: (high ++ '\\' :: 'u' :: low)) ++ rest =
          '\\' :: 'u' :: (high ++ ('\\' :: 'u' :: (low ++ rest))) := by simp
      rw [spelled]
      change readEscaped (high ++ ('\\' :: 'u' :: (low ++ rest))) = _
      simp only [readEscaped, readUnit_append hhigh (by omega), if_pos isHigh,
        readUnit_append hlow (by omega), if_pos isLow, whole, Char.ofNat_toNat]

/-- No character is written as a quote, which ends the text. -/
theorem SpellsChar.start {c : Char} {written : Text} (h : SpellsChar c written) :
    ∃ first more, written = first :: more ∧ first ≠ '"' := by
  cases h with
  | plain h =>
      refine ⟨c, [], rfl, ?_⟩
      rintro rfl
      exact absurd h (by decide)
  | _ => exact ⟨'\\', _, rfl, by decide⟩

theorem readText_append {value written : Text} (h : SpellsText value written) {bound : Nat}
    (enough : written.length < bound) (rest : Text) :
    readText bound (written ++ '"' :: rest) = some (value, rest) := by
  induction h generalizing bound with
  | nil =>
      obtain ⟨bound, rfl⟩ := Nat.exists_eq_succ_of_ne_zero (Nat.ne_zero_of_lt enough)
      rfl
  | @cons c text written more h tail ih =>
      obtain ⟨bound, rfl⟩ := Nat.exists_eq_succ_of_ne_zero (Nat.ne_zero_of_lt enough)
      obtain ⟨first, others, rfl, notQuote⟩ := h.start
      have shorter : more.length < bound := by
        simp only [List.length_append, List.length_cons] at enough
        omega
      have head := readChar_append h (more ++ '"' :: rest)
      rw [List.append_assoc]
      unfold readText
      split
      · next same => exact nomatch same
      · next same => exact absurd (List.cons.inj same).1 notQuote
      · next same _ =>
        cases same
        rw [head]
        simp only [ih shorter, Option.map_some]

/-! ### Values -/

theorem readNumber_append {literal rest : Text} (h : isNumber literal = true)
    (stop : ∀ c ∈ rest.head?, isNumberChar c = false) :
    readNumber (literal ++ rest) = some (.number literal, rest) := by
  have inside := mem_isNumberChar_of_isNumber h
  simp only [readNumber, takeWhile_append_of_stop inside stop, dropWhile_append_of_stop inside stop,
    if_pos h]

/-- What does not start like a number is none. -/
theorem readNumber_cons {c : Char} (h : isNumberChar c = false) (rest : Text) :
    readNumber (c :: rest) = none := by
  have nothing : (c :: rest).takeWhile isNumberChar = [] :=
    List.takeWhile_cons_of_neg (by simp [h])
  rw [readNumber, nothing]
  rfl

/-- A text that goes on with neither a blank nor the character of a number. -/
def Stops (text : Text) : Prop :=
  ∀ c ∈ text.head?, isBlank c = false ∧ isNumberChar c = false

theorem stops_nil : Stops [] :=
  nofun

theorem stops_cons {c : Char} (rest : Text) (h : isBlank c = false ∧ isNumberChar c = false) :
    Stops (c :: rest) := by
  rintro _ ⟨⟩
  exact h

/-- Reading a part within a bound gives what the part is for. -/
def Part.IsRead (bound : Nat) (written : Text) : Part → Prop
  | .value tree => ∀ rest : Text, (∀ c ∈ rest.head?, isNumberChar c = false) →
      readValue bound (written ++ rest) = some (tree, rest)
  | .item tree => ∀ rest, Stops rest →
      padded (readValue bound) (written ++ rest) = some (tree, rest)
  | .items trees => ∀ steps rest, written.length < steps →
      readMany (padded (readValue bound)) ']' steps (written ++ ']' :: rest) = some (trees, rest)
  | .member name tree => ∀ rest, Stops rest →
      readMember (readValue bound) bound (written ++ rest) = some ((name, tree), rest)
  | .members pairs => ∀ steps rest, written.length < steps →
      readMany (readMember (readValue bound) bound) '\x7d' steps (written ++ '\x7d' :: rest) =
        some (pairs, rest)

section

variable {α : Type} {read : Text → Option (α × Text)} {close : Char}

/-- The last of many is followed by the closing mark. -/
theorem readMany_last {text rest : Text} {value : α} (h : read text = some (value, close :: rest))
    {steps : Nat} (enough : 0 < steps) : readMany read close steps text = some ([value], rest) := by
  obtain ⟨steps, rfl⟩ := Nat.exists_eq_succ_of_ne_zero (Nat.ne_zero_of_lt enough)
  simp only [readMany, h, beq_self_eq_true, if_true]

/-- Each other one is followed by a comma, and the reading goes on behind it. -/
theorem readMany_comma {text rest : Text} {value : α} (h : read text = some (value, ',' :: rest))
    (other : close ≠ ',') (steps : Nat) : readMany read close (steps + 1) text =
      (readMany read close steps rest).map fun (more, rest) => (value :: more, rest) := by
  have notClose : (',' == close) = false := beq_eq_false_iff_ne.mpr other.symm
  simp only [readMany, h, notClose, beq_self_eq_true, Bool.false_eq_true, if_false, if_true]

theorem readBrackets_blanks {blanks rest : Text} (h : IsBlanks blanks)
    (hclose : isBlank close = false) (bound : Nat) :
    readBrackets read close bound (blanks ++ close :: rest) = some ([], rest) := by
  have front : dropBlanks (blanks ++ close :: rest) = close :: rest :=
    dropBlanks_append_of_stop h (by simpa using hclose)
  simp only [readBrackets, front, beq_self_eq_true, if_true]

/-- Where something stands between brackets it is read. -/
theorem readBrackets_eq {part : Part} {written : Text} (h : Spells part written)
    (hclose : close = ']' ∨ close = '\x7d') (bound : Nat) (rest : Text) :
    readBrackets read close bound (written ++ rest) =
      readMany read close bound (written ++ rest) := by
  obtain ⟨blanks, first, more, rfl, hblanks, -, unblank, notBracket, notBrace⟩ := h.start
  have front : dropBlanks ((blanks ++ first :: more) ++ rest) = first :: (more ++ rest) := by
    rw [List.append_assoc, List.cons_append]
    exact dropBlanks_append_of_stop hblanks (by simpa using unblank)
  have notClose : (first == close) = false := by
    rcases hclose with rfl | rfl
    · exact beq_eq_false_iff_ne.mpr notBracket
    · exact beq_eq_false_iff_ne.mpr notBrace
  simp only [readBrackets, front, notClose, Bool.false_eq_true, if_false]

end

/-- Blanks around a value are dropped. -/
theorem padded_readValue {bound : Nat} {tree : Tree} {before written after rest : Text}
    (hbefore : IsBlanks before) (h : Spells (.value tree) written) (hafter : IsBlanks after)
    (value : (Part.value tree).IsRead bound written) (stop : Stops rest) :
    padded (readValue bound) ((before ++ (written ++ after)) ++ rest) = some (tree, rest) := by
  have front : dropBlanks ((before ++ (written ++ after)) ++ rest) =
      written ++ (after ++ rest) := by
    obtain ⟨blanks, first, more, rfl, -, atFront, unblank, -⟩ := h.start
    obtain rfl := atFront tree rfl
    rw [List.append_assoc, List.append_assoc]
    exact dropBlanks_append_of_stop hbefore (by simpa using unblank)
  have back : dropBlanks (after ++ rest) = rest :=
    dropBlanks_append_of_stop hafter fun c hc => (stop c hc).1
  have ended : ∀ c ∈ (after ++ rest).head?, isNumberChar c = false := by
    cases after with
    | nil => exact fun c hc => (stop c hc).2
    | cons c after =>
        rintro _ ⟨⟩
        exact isNumberChar_of_isBlank (hafter c (by simp))
  rw [padded, front, value _ ended]
  simp only [Option.map_some, back]

theorem readMember_append {bound : Nat} {name : Text} {tree : Tree}
    {before key between written rest : Text} (hbefore : IsBlanks before)
    (hname : SpellsText name key) (enough : key.length < bound) (hbetween : IsBlanks between)
    (item : (Part.item tree).IsRead bound written) (stop : Stops rest) :
    readMember (readValue bound) bound
      ((before ++ '"' :: (key ++ '"' :: (between ++ ':' :: written))) ++ rest) =
        some ((name, tree), rest) := by
  have whole : (before ++ '"' :: (key ++ '"' :: (between ++ ':' :: written))) ++ rest =
      before ++ '"' :: (key ++ '"' :: (between ++ ':' :: (written ++ rest))) := by simp
  have front : dropBlanks (before ++ '"' :: (key ++ '"' :: (between ++ ':' :: (written ++ rest)))) =
      '"' :: (key ++ '"' :: (between ++ ':' :: (written ++ rest))) :=
    dropBlanks_append_of_stop hbefore (by simp [isBlank])
  have middle : dropBlanks (between ++ ':' :: (written ++ rest)) = ':' :: (written ++ rest) :=
    dropBlanks_append_of_stop hbetween (by simp [isBlank])
  rw [whole]
  simp only [readMember, front, readText_append hname enough, middle, item rest stop,
    Option.map_some]

/-- Reading finds what a part is for, in any bound that its text does not exceed. -/
theorem isRead_of_spells {part : Part} {written : Text} (h : Spells part written) {bound : Nat}
    (enough : written.length ≤ bound) : part.IsRead bound written := by
  have within {middle : Text} {first last : Char} {bound : Nat}
      (enough : (first :: (middle ++ [last])).length ≤ bound) :
      ∃ smaller, bound = smaller + 1 ∧ middle.length < smaller := by
    obtain ⟨smaller, rfl⟩ := Nat.exists_eq_succ_of_ne_zero (Nat.ne_zero_of_lt enough)
    simp only [List.length_cons, List.length_append, List.length_nil] at enough
    exact ⟨smaller, rfl, by omega⟩
  induction h generalizing bound with
  | null | yes | no =>
      obtain ⟨bound, rfl⟩ := Nat.exists_eq_succ_of_ne_zero (Nat.ne_zero_of_lt enough)
      intro rest _
      simp (disch := decide) only [List.cons_append, List.nil_append, readValue, readNumber_cons]
  | number h =>
      obtain ⟨first, more, rfl⟩ := List.exists_cons_of_ne_nil (ne_nil_of_isNumber h)
      obtain ⟨bound, rfl⟩ := Nat.exists_eq_succ_of_ne_zero (Nat.ne_zero_of_lt enough)
      intro rest stop
      simp only [readValue, readNumber_append h stop]
  | text h =>
      obtain ⟨bound, rfl, shorter⟩ := within enough
      intro rest _
      simp (disch := decide) only [List.cons_append, List.append_assoc, List.nil_append, readValue,
        readNumber_cons, readText_append h shorter, Option.map_some]
  | noItems h | noMembers h =>
      obtain ⟨bound, rfl, -⟩ := within enough
      intro rest _
      simp (disch := decide) only [List.cons_append, List.append_assoc, List.nil_append, readValue,
        readNumber_cons, readBrackets_blanks h, Option.map_some]
  | list h ih =>
      obtain ⟨bound, rfl, shorter⟩ := within enough
      intro rest _
      simp (disch := decide) only [List.cons_append, List.append_assoc, List.nil_append, readValue,
        readNumber_cons, readBrackets_eq h (.inl rfl), ih shorter.le bound rest shorter,
        Option.map_some]
  | object h ih =>
      obtain ⟨bound, rfl, shorter⟩ := within enough
      intro rest _
      simp (disch := decide) only [List.cons_append, List.append_assoc, List.nil_append, readValue,
        readNumber_cons, readBrackets_eq h (.inr rfl), ih shorter.le bound rest shorter,
        Option.map_some]
  | item hbefore h hafter ih =>
      intro rest stop
      simp only [List.length_append] at enough
      exact padded_readValue hbefore h hafter (ih (by omega)) stop
  | lastItem h ih =>
      intro steps rest more
      exact readMany_last (ih enough _ (stops_cons rest (by decide))) (Nat.zero_lt_of_lt more)
  | @moreItems _ _ _ later h tail ih ihTail =>
      intro steps rest more
      simp only [List.length_append, List.length_cons] at enough more
      obtain ⟨steps, rfl⟩ := Nat.exists_eq_succ_of_ne_zero (Nat.ne_zero_of_lt more)
      have first := @ih bound (by omega) (',' :: (later ++ ']' :: rest)) (stops_cons _ (by decide))
      rw [List.append_assoc, List.cons_append, readMany_comma first (by decide : ']' ≠ ','),
        ihTail (by omega) steps rest (by omega)]
      rfl
  | member hbefore hname hbetween h ih =>
      intro rest stop
      simp only [List.length_append, List.length_cons] at enough
      exact readMember_append hbefore hname (by omega) hbetween (ih (by omega)) stop
  | lastMember h ih =>
      intro steps rest more
      exact readMany_last (ih enough _ (stops_cons rest (by decide))) (Nat.zero_lt_of_lt more)
  | @moreMembers _ _ _ _ later h tail ih ihTail =>
      intro steps rest more
      simp only [List.length_append, List.length_cons] at enough more
      obtain ⟨steps, rfl⟩ := Nat.exists_eq_succ_of_ne_zero (Nat.ne_zero_of_lt more)
      have first :=
        @ih bound (by omega) (',' :: (later ++ '\x7d' :: rest)) (stops_cons _ (by decide))
      rw [List.append_assoc, List.cons_append, readMany_comma first (by decide : '\x7d' ≠ ','),
        ihTail (by omega) steps rest (by omega)]
      rfl

/-- A JSON text is read as the tree that it is for. -/
theorem read?_of_isJson {tree : Tree} {text : Text} (h : IsJson tree text) :
    Tree.read? text = some tree := by
  have read := isRead_of_spells h le_rfl [] stops_nil
  rw [List.append_nil] at read
  rw [Tree.read?, read]

end Json

end FetchQuery
