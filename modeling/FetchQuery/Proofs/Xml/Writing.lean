import FetchQuery.Proofs.Xml.Spelling

/-!
# One way to write a document

`Element.write` writes a tree without gaps, with an opening and a closing tag for each
element, every value in double quotes, and a reference for each of the five characters
that have a name. It is one of the ways to write the tree (`writesDocument_write`), so
that a tree whose names can be written is the tree of some document.
-/

namespace FetchQuery

namespace Xml

open Text

/-- A reference with a name. -/
def reference (name : Text) : Text :=
  '&' :: (name ++ [';'])

/-- A character of a value, by its name if it has one. -/
def escapeChar : Char → Text
  | '<' => reference "lt"
  | '>' => reference "gt"
  | '&' => reference "amp"
  | '\'' => reference "apos"
  | '"' => reference "quot"
  | c => [c]

/-- A value as it may stand between quotes. -/
def escape (value : Text) : Text :=
  value.flatMap escapeChar

namespace Attribute

/-- An attribute with a blank before it. -/
def write (pair : Attribute) : Text :=
  ' ' :: (pair.key ++ '=' :: '"' :: (escape pair.value ++ ['"']))

end Attribute

mutual

/-- An element between its two tags. -/
def Element.write : Element → Text
  | ⟨name, attributes, children⟩ =>
      '<' :: ((name ++ attributes.flatMap Attribute.write) ++ '>' ::
        (Element.writeAll children ++ '<' :: '/' :: (name ++ ['>'])))

/-- Elements one after another. -/
def Element.writeAll : List Element → Text
  | [] => []
  | element :: elements => element.write ++ Element.writeAll elements

end

/-! ### What is written is a spelling -/

theorem writes_escapeChar {value written : Text} (c : Char) (h : Writes value written) :
    Writes (c :: value) (escapeChar c ++ written) := by
  have named {name : Text} {c : Char} (isReference : IsReference name c) :
      Writes (c :: value) (reference name ++ written) := by
    simpa [reference] using Writes.reference isReference h
  unfold escapeChar
  split
  · exact named .lt
  · exact named .gt
  · exact named .amp
  · exact named .apos
  · exact named .quot
  · next notAmp _ _ => exact .char notAmp h

theorem writes_escape (value : Text) : Writes value (escape value) := by
  induction value with
  | nil => exact .nil
  | cons c value ih => exact writes_escapeChar c ih

/-- A value in double quotes does not end early. -/
theorem quote_not_mem_escape (value : Text) : '"' ∉ escape value := by
  intro h
  obtain ⟨c, -, h⟩ := List.mem_flatMap.mp h
  unfold escapeChar at h
  split at h
  · simp [reference] at h
  · simp [reference] at h
  · simp [reference] at h
  · simp [reference] at h
  · simp [reference] at h
  · next notQuote => exact notQuote (List.mem_singleton.mp h).symm

theorem writesAttributes_write (attributes : List Attribute) :
    WritesAttributes attributes (attributes.flatMap Attribute.write) := by
  induction attributes with
  | nil => exact .nil
  | cons pair attributes ih =>
      have blank : IsBlanks [' '] := by decide
      have quote : isQuote '"' = true := by decide
      have one : WritesAttribute pair _ := .mk isBlanks_nil isBlanks_nil quote
        (writes_escape pair.value) (quote_not_mem_escape pair.value)
      exact .cons blank one ih

theorem writesTag_write (name : Text) (attributes : List Attribute) :
    WritesTag name attributes (name ++ attributes.flatMap Attribute.write) := by
  have apart : ∀ c ∈ (attributes.flatMap Attribute.write).head?, isBlank c = true := by
    cases attributes with
    | nil => simp
    | cons pair attributes => simp [Attribute.write, isBlank]
  have tag : WritesTag name attributes _ :=
    .mk (writesAttributes_write attributes) apart isBlanks_nil
  simpa using tag

mutual

theorem writesAll_cons : (element : Element) → {elements : List Element} → {written : Text} →
    WritesAll elements written → WritesAll (element :: elements) (element.write ++ written)
  | ⟨name, attributes, children⟩, elements, written, h => by
      have inside := writesAll_writeAll children
      have one : WritesAll (⟨name, attributes, children⟩ :: elements) _ :=
        .pair isGap_nil (writesTag_write name attributes) inside isBlanks_nil h
      simpa [Element.write] using one

theorem writesAll_writeAll : (elements : List Element) →
    WritesAll elements (Element.writeAll elements)
  | [] => .nil isGap_nil
  | element :: elements => writesAll_cons element (writesAll_writeAll elements)

end

/-- What is written for a tree is a document with that tree. -/
theorem writesDocument_write (tree : Element) : WritesDocument tree tree.write := by
  change WritesAll [tree] tree.write
  simpa using writesAll_cons tree (.nil isGap_nil)

/-- Reading undoes writing. -/
theorem ofDocument_write {tree : Element} (wellNamed : tree.WellNamed) :
    Element.ofDocument tree.write = .ok tree := by
  obtain ⟨name, attributes, children⟩ := tree
  exact treeOf_of_writesDocument wellNamed (writesDocument_write _)

end Xml

end FetchQuery
