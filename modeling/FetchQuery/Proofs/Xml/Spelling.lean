import FetchQuery.Proofs.Xml.Aside
import FetchQuery.Proofs.Xml.TagEnd

/-!
# Ways to write a document

A tree is written as its elements with gaps before, between and after them, each element
as two tags around what is in it, or as one tag if nothing is in it. Reading a document
gives back the tree, whatever way was chosen (`ofDocument_of_writesDocument`). Between the
tags of an element its children are attached to it one by one, so the induction is over
lists of elements and takes any growth before them and any text after them.
-/

namespace FetchQuery

namespace Xml

open Text

/-- A tree in which all names and keys can be written, and no element has a key twice. -/
inductive Element.WellNamed : Element → Prop
  | mk {name : Text} {attributes : List Attribute} {children : List Element} (hname : IsName name)
      (hkeys : ∀ pair ∈ attributes, IsKey pair.key)
      (distinct : (attributes.map Attribute.key).Nodup)
      (below : ∀ child ∈ children, child.WellNamed) :
      WellNamed ⟨name, attributes, children⟩

theorem Element.WellNamed.leaf {name : Text} (hname : IsName name) :
    Element.WellNamed ⟨name, [], []⟩ :=
  .mk hname nofun .nil nofun

/-- The ways to write elements in order, with gaps around them. -/
inductive WritesAll : List Element → Text → Prop
  | nil {gap : Text} (hgap : IsGap gap) : WritesAll [] gap
  | empty {name gap content more : Text} {attributes : List Attribute} {elements : List Element}
      (hgap : IsGap gap) (tag : WritesTag name attributes content)
      (tail : WritesAll elements more) :
      WritesAll (⟨name, attributes, []⟩ :: elements)
        (gap ++ '<' :: (content ++ '/' :: '>' :: more))
  | pair {name gap content inner blanks more : Text} {attributes : List Attribute}
      {children elements : List Element} (hgap : IsGap gap)
      (tag : WritesTag name attributes content) (inside : WritesAll children inner)
      (hblanks : IsBlanks blanks) (tail : WritesAll elements more) :
      WritesAll (⟨name, attributes, children⟩ :: elements)
        (gap ++ '<' :: (content ++ '>' ::
          (inner ++ '<' :: '/' :: (name ++ (blanks ++ '>' :: more)))))

/-- The ways to write a document that has a tree. -/
def WritesDocument (tree : Element) (document : Text) : Prop :=
  WritesAll [tree] document

/-- Blanks behind a name are no part of it. -/
theorem closingName_append {name blanks : Text} (hname : IsName name) (hblanks : IsBlanks blanks) :
    closingName (name ++ blanks) = name := by
  have notBlank : (name ++ blanks).all isBlank = false := by
    obtain ⟨first, tail, rfl⟩ := List.exists_cons_of_ne_nil hname.nonempty
    simp [hname.noBlank first (by simp)]
  have stop : ∀ c ∈ name.getLast?, isBlank c = false := by
    intro c last
    exact hname.noBlank c (List.mem_of_getLast? last)
  rw [closingName, notBlank, dropEndWhile_append_of_stop hblanks stop]
  rfl

theorem isApart_tag (text : Text) : IsApart ('<' :: text) := by
  simp [IsApart]

/-- Elements that were written are attached in order, and reading goes on behind them. -/
theorem Completes.of_writesAll {elements : List Element} {written : Text}
    (h : WritesAll elements written) (wellNamed : ∀ element ∈ elements, element.WellNamed)
    {growth grown : Growth} (attached : elements.foldlM Growth.attach growth = .ok grown)
    {rest : Text} {tree : Element} (apart : IsApart rest) (more : Completes grown rest tree) :
    Completes growth (written ++ rest) tree := by
  induction h generalizing growth grown rest with
  | nil hgap =>
      cases attached
      exact more.of_gap hgap apart
  | @empty name gap content written attributes elements hgap tag _ ih =>
      rw [List.forall_mem_cons] at wellNamed
      obtain ⟨⟨hname, hkeys, distinct, -⟩, others⟩ := wellNamed
      rw [List.foldlM_cons, Outcome.bind_eq_ok_iff] at attached
      obtain ⟨middle, first, later⟩ := attached
      have step := next_emptyTag tag hname hkeys (written ++ rest)
      have readable : ∀ pair ∈ attributes, IsReadableKey pair.key := fun pair member =>
        (hkeys pair member).isReadable
      have tagRead := ofTag_of_writesTag tag hname.noBlank readable distinct
      have takes := Growth.takes_emptyTag tagRead first
      have read : Completes growth ('<' :: (content ++ '/' :: '>' :: (written ++ rest))) tree :=
        .read step takes (ih others later apart more)
      simpa using read.of_gap hgap (isApart_tag _)
  | @pair name gap content inner blanks written attributes children elements hgap tag _ hblanks
      _ ihInside ihTail =>
      rw [List.forall_mem_cons] at wellNamed
      obtain ⟨⟨hname, hkeys, distinct, below⟩, others⟩ := wellNamed
      rw [List.foldlM_cons, Outcome.bind_eq_ok_iff] at attached
      obtain ⟨middle, first, later⟩ := attached
      obtain ⟨-, -, -, -, named, -⟩ := tag.split hname.noBlank
      have readable : ∀ pair ∈ attributes, IsReadableKey pair.key := fun pair member =>
        (hkeys pair member).isReadable
      have opened : growth.Takes (.openTag content)
          ⟨name :: growth.names, ⟨name, attributes, []⟩ :: growth.unfinished, growth.root?⟩ :=
        Growth.takes_openTag (ofTag_of_writesTag tag hname.noBlank readable distinct) named
      have filled := Growth.foldlM_attach children
        ⟨name :: growth.names, ⟨name, attributes, []⟩ :: growth.unfinished, growth.root?⟩
        ⟨name, attributes, []⟩ growth.unfinished rfl
      have closed := Growth.takes_closeTag (closingName_append hname hblanks) first
      have close : Completes
          ⟨name :: growth.names, ⟨name, attributes, children⟩ :: growth.unfinished, growth.root?⟩
          ('<' :: '/' :: (name ++ (blanks ++ '>' :: (written ++ rest)))) tree :=
        .read (next_closeTag hname hblanks _) closed (ihTail others later apart more)
      have inside := ihInside below filled (isApart_tag _) close
      have read : Completes growth ('<' :: (content ++ '>' ::
          (inner ++ '<' :: '/' :: (name ++ (blanks ++ '>' :: (written ++ rest)))))) tree :=
        .read (next_openTag tag hname hkeys _) opened inside
      simpa using read.of_gap hgap (isApart_tag _)

/-- A document that was written grows from nothing into its tree. -/
theorem treeOf_of_writesDocument {tree : Element} {document : Text} (wellNamed : tree.WellNamed)
    (h : WritesDocument tree document) : treeOf document = .ok tree := by
  rw [treeOf_eq_ok_iff]
  have attached : [tree].foldlM Growth.attach Growth.start = .ok ⟨[], [], some tree⟩ := rfl
  have ended : Completes ⟨[], [], some tree⟩ [] tree := .finish rfl rfl
  simpa using Completes.of_writesAll h (by simpa using wellNamed) attached (by simp [IsApart]) ended

theorem IsGap.tail {gap rest : Text} {c : Char} (h : IsGap gap) (same : gap = c :: rest)
    (plain : c ≠ '<' ∧ c ≠ '&') : IsGap rest := by
  cases h with
  | plain hplain =>
      subst same
      exact .plain fun x hx => hplain x (List.mem_cons_of_mem c hx)
  | @aside text aside more hplain haside tail =>
      cases text with
      | nil =>
          have first : (aside ++ more).head? = some c := by
            rw [← List.nil_append (aside ++ more), same]
            rfl
          rcases haside.isApart more c first with h | h
          · exact absurd h plain.1
          · exact absurd h plain.2
      | cons first text =>
          cases same
          exact .aside (fun x hx => hplain x (List.mem_cons_of_mem _ hx)) haside tail

/-- A character of text may be taken off the front of what was written. -/
theorem WritesAll.tail {elements : List Element} {written rest : Text} {c : Char}
    (h : WritesAll elements written) (same : written = c :: rest) (plain : c ≠ '<' ∧ c ≠ '&') :
    WritesAll elements rest := by
  cases h with
  | nil hgap => exact .nil (hgap.tail same plain)
  | @empty _ gap _ _ _ _ hgap tag tail =>
      cases gap with
      | nil => exact absurd (List.cons.inj same).1.symm plain.1
      | cons first gap =>
          cases same
          exact .empty (hgap.tail rfl plain) tag tail
  | @pair _ gap _ _ _ _ _ _ _ hgap tag inside hblanks tail =>
      cases gap with
      | nil => exact absurd (List.cons.inj same).1.symm plain.1
      | cons first gap =>
          cases same
          exact .pair (hgap.tail rfl plain) tag inside hblanks tail

/-- A byte order mark in front of a document is text in a gap. -/
theorem WritesAll.withoutByteOrderMark {elements : List Element} {written : Text}
    (h : WritesAll elements written) : WritesAll elements (withoutByteOrderMark written) := by
  unfold Xml.withoutByteOrderMark
  split
  · exact h.tail rfl (by decide)
  · exact h

/-- Reading undoes every way to write a document. -/
theorem ofDocument_of_writesDocument {tree : Element} {document : Text}
    (wellNamed : tree.WellNamed) (h : WritesDocument tree document) :
    Element.ofDocument document = .ok tree :=
  treeOf_of_writesDocument wellNamed h.withoutByteOrderMark

/-- A comment that looks like a tag, blanks where they may stand, a reference by name and
one by number, a quote inside the other quotes, and both ways to write no children. -/
theorem ofDocument_of_writesDocument_nested :
    let tree : Element := ⟨['a'], [⟨['x'], ['<', '"', '>']⟩], [⟨['b'], [], []⟩, ⟨['c'], [], []⟩]⟩
    let document : Text := "t<!--<a>--><a x = '&lt;\"&#x3E;' ><b/>t<c></c ></a>"
    tree.WellNamed ∧ WritesDocument tree document ∧ Element.ofDocument document = .ok tree := by
  intro tree document
  have wellNamed : tree.WellNamed := by
    refine .mk (by decide) (by decide) (by decide) ?_
    rw [List.forall_mem_cons, List.forall_mem_singleton]
    exact ⟨.leaf (by decide), .leaf (by decide)⟩
  have number : IsNumeral 16 ['3', 'E'] '>'.toNat :=
    ⟨List.cons_ne_nil _ _, [3, 14], .cons (by decide) (.cons (by decide) .nil), by decide⟩
  have value : Writes ['<', '"', '>'] _ :=
    .reference .lt (.char (by decide) (.reference (.hexadecimal number (by decide)) .nil))
  have blank : IsBlanks [' '] := by decide
  have quote : isQuote '\'' = true := by decide
  have pair : WritesAttribute ⟨['x'], ['<', '"', '>']⟩ _ := .mk blank blank quote value (by simp)
  have tag : WritesTag ['a'] [⟨['x'], ['<', '"', '>']⟩] _ :=
    .mk (.cons blank pair .nil) (by simp [isBlank]) blank
  have bare (name blanks : Text) (h : IsBlanks blanks) :
      WritesTag name [] (name ++ ([] ++ blanks)) := .mk .nil (by simp) h
  have plain : ∀ c ∈ ['t'], c ≠ '<' ∧ c ≠ '&' := by simp
  have body : ¬ ("-->" : Text) <:+: ['<', 'a', '>'] := by decide +kernel
  have gap : IsGap _ := .aside plain (.comment body) isGap_nil
  have inside : WritesAll [⟨['b'], [], []⟩, ⟨['c'], [], []⟩] _ :=
    .empty isGap_nil (bare ['b'] [] isBlanks_nil)
      (.pair (.plain plain) (bare ['c'] [] isBlanks_nil) (.nil isGap_nil) blank (.nil isGap_nil))
  have whole : WritesDocument tree _ := .pair gap tag inside isBlanks_nil (.nil isGap_nil)
  have written : WritesDocument tree document := by
    convert whole using 1
    decide +kernel +revert
  exact ⟨wellNamed, written, ofDocument_of_writesDocument wellNamed written⟩

end Xml

end FetchQuery
