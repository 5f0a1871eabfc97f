import FetchQuery.Proofs.Text.Span
import FetchQuery.Proofs.Xml.Reference
import FetchQuery.Xml.Tag

/-!
# Ways to write a tag

A tag is written as a name and its attributes. There may be any number of blanks before
an attribute, around its equals sign and at the end, and either quote may enclose a value
that does not hold it. Blanks have to stand after the name, but need not stand after a
value. Whatever way is chosen, the tag is read as its name and its attributes in order
(`ofTag_of_writesTag`).
-/

namespace FetchQuery

namespace Xml

open Text Outcome

/-- A name that an element may have. -/
structure IsName (name : Text) : Prop where
  nonempty : name ≠ []
  noBlank : ∀ c ∈ name, isBlank c = false
  noMark : ∀ c ∈ name, c ∉ ['<', '>', '\'', '"', '/']
  start : name.head? ≠ some '!' ∧ name.head? ≠ some '?'

/-- A key that an attribute may have. -/
structure IsKey (key : Text) : Prop where
  nonempty : key ≠ []
  noBlank : ∀ c ∈ key, isBlank c = false
  noMark : ∀ c ∈ key, c ∉ ['=', '<', '>', '\'', '"']

/-- A key that can be told from what follows it. Its first character may be anything but a blank,
those after it anything but blanks and equals signs. -/
structure IsReadableKey (key : Text) : Prop where
  nonempty : key ≠ []
  start : ∀ c ∈ key.head?, isBlank c = false
  inside : ∀ c ∈ key.tail, isKeyChar c = true

theorem IsKey.isReadable {key : Text} (h : IsKey key) : IsReadableKey key where
  nonempty := h.nonempty
  start c first := h.noBlank c (List.mem_of_mem_head? first)
  inside c inside := by
    have member := List.mem_of_mem_tail inside
    have mark := h.noMark c member
    simp only [List.mem_cons, not_or] at mark
    simp [isKeyChar, h.noBlank c member, mark]

theorem isName_iff {name : Text} : IsName name ↔
    name ≠ [] ∧ (name.all fun c => !isBlank c) = true ∧
      (name.all fun c => !List.contains ['<', '>', '\'', '"', '/'] c) = true ∧
      name.head? ≠ some '!' ∧ name.head? ≠ some '?' := by
  simp only [List.all_eq_true, Bool.not_eq_true', List.contains_eq_mem, decide_eq_false_iff_not]
  constructor
  · rintro ⟨nonempty, noBlank, noMark, start⟩
    exact ⟨nonempty, noBlank, noMark, start⟩
  · rintro ⟨nonempty, noBlank, noMark, start⟩
    exact ⟨nonempty, noBlank, noMark, start⟩

theorem isKey_iff {key : Text} : IsKey key ↔
    key ≠ [] ∧ (key.all fun c => !isBlank c) = true ∧
      (key.all fun c => !List.contains ['=', '<', '>', '\'', '"'] c) = true := by
  simp only [List.all_eq_true, Bool.not_eq_true', List.contains_eq_mem, decide_eq_false_iff_not]
  constructor
  · rintro ⟨nonempty, noBlank, noMark⟩
    exact ⟨nonempty, noBlank, noMark⟩
  · rintro ⟨nonempty, noBlank, noMark⟩
    exact ⟨nonempty, noBlank, noMark⟩

instance (name : Text) : Decidable (IsName name) :=
  decidable_of_iff _ isName_iff.symm

instance (key : Text) : Decidable (IsKey key) :=
  decidable_of_iff _ isKey_iff.symm

/-- The ways to write an attribute. -/
inductive WritesAttribute : Attribute → Text → Prop
  | mk {key value before after written : Text} {quote : Char} (hbefore : IsBlanks before)
      (hafter : IsBlanks after) (hquote : isQuote quote = true) (hwritten : Writes value written)
      (free : quote ∉ written) :
      WritesAttribute ⟨key, value⟩
        (key ++ (before ++ '=' :: (after ++ quote :: (written ++ [quote]))))

/-- The ways to write attributes in order, each with the blanks before it. -/
inductive WritesAttributes : List Attribute → Text → Prop
  | nil : WritesAttributes [] []
  | cons {pair : Attribute} {pairs : List Attribute} {blanks written more : Text}
      (hblanks : IsBlanks blanks) (h : WritesAttribute pair written)
      (tail : WritesAttributes pairs more) :
      WritesAttributes (pair :: pairs) (blanks ++ (written ++ more))

/-- The ways to write the content of a tag. A blank stands between the name and the
attributes, if there are any. -/
inductive WritesTag (name : Text) (attributes : List Attribute) : Text → Prop
  | mk {written blanks : Text} (h : WritesAttributes attributes written)
      (apart : ∀ c ∈ written.head?, isBlank c = true) (hblanks : IsBlanks blanks) :
      WritesTag name attributes (name ++ (written ++ blanks))

/-! ### Reading what was written -/

theorem readKey_append {content tail before afterKey : Text} {first : Char}
    (hkey : IsReadableKey (first :: tail)) (hbefore : IsBlanks before) :
    readKey content first (tail ++ (before ++ '=' :: afterKey)) =
      .ok (first :: tail, afterKey) := by
  have inside : ∀ c ∈ tail, isKeyChar c = true := hkey.inside
  have stop : ∀ c ∈ (before ++ '=' :: afterKey).head?, isKeyChar c = false := by
    cases before with
    | nil => simp [isKeyChar]
    | cons blank before => simp [isKeyChar, hbefore blank (by simp)]
  have equals : dropBlanks (before ++ '=' :: afterKey) = '=' :: afterKey :=
    dropBlanks_append_of_stop hbefore (by simp [isBlank])
  unfold readKey
  rw [dropWhile_append_of_stop inside stop, takeWhile_append_of_stop inside stop, equals]
  rfl

theorem readQuoted_append {content after written rest : Text} {quote : Char}
    (hafter : IsBlanks after) (hquote : isQuote quote = true) (free : quote ∉ written) :
    readQuoted content (after ++ quote :: (written ++ quote :: rest)) = .ok (written, rest) := by
  have unblank : isBlank quote = false := by
    simp only [isQuote, Bool.or_eq_true, beq_iff_eq] at hquote
    rcases hquote with rfl | rfl <;> decide
  have inside : ∀ c ∈ written, (c != quote) = true := by
    intro c hc
    simpa using fun same : c = quote => free (same ▸ hc)
  have stop : ∀ c ∈ (quote :: rest).head?, (c != quote) = false := by simp
  unfold readQuoted
  rw [dropBlanks_append_of_stop hafter (by simpa using unblank)]
  simp only [hquote, if_true, dropWhile_append_of_stop inside stop,
    takeWhile_append_of_stop inside stop]

/-- An attribute that was written is read, if no attribute before it has its key. -/
theorem readAttribute_of_writesAttribute {pair : Attribute} {written : Text}
    (h : WritesAttribute pair written) (hkey : IsReadableKey pair.key) (content rest : Text)
    {keys : Keys} (fresh : keys.lookup pair.key = none) :
    ∃ first more, isBlank first = false ∧ written = first :: more ∧
      readAttribute content keys first (more ++ rest) = .ok (pair, rest) := by
  cases h with
  | @mk key value before after written quote hbefore hafter hquote hwritten free =>
      obtain ⟨first, tail, rfl⟩ := List.exists_cons_of_ne_nil hkey.nonempty
      refine ⟨first, _, hkey.start first rfl, rfl, ?_⟩
      rw [readAttribute_eq_ok_iff]
      refine ⟨after ++ quote :: (written ++ quote :: rest), written, ?_, ?_, ?_, ?_⟩
      · simpa using readKey_append hkey hbefore
      · simp [checkFresh, fresh]
      · exact readQuoted_append hafter hquote free
      · exact decode_eq_ok_iff.mpr hwritten

/-- Attributes that were written are read in order. The keys that were read before them
matter only in that none of them comes again. -/
theorem readAttributes_of_writesAttributes {pairs : List Attribute} {written : Text}
    (h : WritesAttributes pairs written) (hkeys : ∀ pair ∈ pairs, IsReadableKey pair.key)
    (distinct : (pairs.map Attribute.key).Nodup) (content : Text) {blanks : Text}
    (hblanks : IsBlanks blanks) {keys : Keys}
    (fresh : ∀ pair ∈ pairs, keys.lookup pair.key = none) :
    readAttributes content keys (written ++ blanks) = .ok pairs := by
  induction h generalizing keys with
  | nil =>
      have ended : dropBlanks (blanks ++ []) = [] := dropBlanks_append_of_stop hblanks (by simp)
      apply readAttributes_of_ended
      simpa using ended
  | @cons pair pairs before written more hbefore h tail ih =>
      have hkey := hkeys pair (by simp)
      obtain ⟨first, written, unblank, rfl, read⟩ :=
        readAttribute_of_writesAttribute h hkey content (more ++ blanks) (fresh pair (by simp))
      have skipped : dropBlanks (before ++ first :: (written ++ (more ++ blanks))) =
          first :: (written ++ (more ++ blanks)) :=
        dropBlanks_append_of_stop hbefore (by simpa using unblank)
      have start : dropBlanks (before ++ (first :: written ++ more) ++ blanks) =
          first :: (written ++ (more ++ blanks)) := by
        simpa using skipped
      rw [List.map_cons, List.nodup_cons] at distinct
      have later : ∀ other ∈ pairs, List.lookup other.key
          ((pair.key, position content (first :: (written ++ (more ++ blanks)))) :: keys) =
            none := by
        intro other hother
        have differs : other.key ≠ pair.key := fun same =>
          distinct.1 (same ▸ List.mem_map_of_mem hother)
        rw [List.lookup_cons, beq_eq_false_iff_ne.mpr differs]
        exact fresh other (List.mem_cons_of_mem pair hother)
      rw [readAttributes_of_attribute start read,
        ih (fun other hother => hkeys other (List.mem_cons_of_mem _ hother)) distinct.2 later]
      rfl

/-- The name of a tag ends where its attributes and blanks begin. -/
theorem WritesTag.split {name content : Text} {attributes : List Attribute}
    (h : WritesTag name attributes content) (noBlank : ∀ c ∈ name, isBlank c = false) :
    ∃ written blanks, WritesAttributes attributes written ∧ IsBlanks blanks ∧
      tagName content = name ∧ content.dropWhile (fun c => !isBlank c) = written ++ blanks := by
  cases h with
  | @mk written blanks h apart hblanks =>
      have inside : ∀ c ∈ name, (!isBlank c) = true := by
        intro c hc
        simp [noBlank c hc]
      have stop : ∀ c ∈ (written ++ blanks).head?, (!isBlank c) = false := by
        intro c hc
        rw [Bool.not_eq_false']
        cases written with
        | nil => exact hblanks c (List.mem_of_mem_head? hc)
        | cons first written => exact apart c hc
      exact ⟨written, blanks, h, hblanks, takeWhile_append_of_stop inside stop,
        dropWhile_append_of_stop inside stop⟩

/-- A tag that was written is read as its name and its attributes. -/
theorem ofTag_of_writesTag {name content : Text} {attributes : List Attribute}
    (h : WritesTag name attributes content) (noBlank : ∀ c ∈ name, isBlank c = false)
    (hkeys : ∀ pair ∈ attributes, IsReadableKey pair.key)
    (distinct : (attributes.map Attribute.key).Nodup) :
    Element.ofTag content = .ok ⟨name, attributes, []⟩ := by
  obtain ⟨written, blanks, hwritten, hblanks, named, left⟩ := h.split noBlank
  have read : readAttributes content [] (written ++ blanks) = .ok attributes :=
    readAttributes_of_writesAttributes hwritten hkeys distinct content hblanks (by simp)
  unfold Element.ofTag
  rw [left, read, named]
  rfl

end Xml

end FetchQuery
