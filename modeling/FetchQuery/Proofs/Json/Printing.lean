import FetchQuery.Json.Basic
import FetchQuery.Proofs.Json.Reader

/-!
# Values that are written

The text of a value is a JSON text in both styles, at any depth and whatever its texts are
(`isJson_write`). So it is read back as the value, with its numbers in decimal
(`read?_write`).
-/

namespace FetchQuery

namespace Json

open Text

namespace Value

mutual

/-- What the text of a value says. -/
def tree : Value → Tree
  | bool value => .bool value
  | number value => .number (decimal value)
  | text value => .text value
  | list items => .list (trees items)
  | object members => .object (memberTrees members)

/-- What the texts of some values say. -/
def trees : List Value → List Tree
  | [] => []
  | item :: items => item.tree :: trees items

/-- What the texts of some members say. -/
def memberTrees : List (Text × Value) → List (Text × Tree)
  | [] => []
  | (name, value) :: members => (name, value.tree) :: memberTrees members

end

theorem trees_eq (items : List Value) : trees items = items.map tree := by
  induction items with
  | nil => rfl
  | cons item items ih => rw [trees, ih, List.map_cons]

theorem memberTrees_eq (members : List (Text × Value)) :
    memberTrees members = members.map fun pair => (pair.1, pair.2.tree) := by
  induction members with
  | nil => rfl
  | cons pair members ih => rw [memberTrees, ih, List.map_cons]

/-- What passes from the parts of every value to the value holds of every value. -/
@[elab_as_elim]
theorem induction {motive : Value → Prop} (bool : ∀ value, motive (.bool value))
    (number : ∀ value, motive (.number value)) (text : ∀ value, motive (.text value))
    (list : ∀ items, (∀ item ∈ items, motive item) → motive (.list items))
    (object : ∀ members, (∀ pair ∈ members, motive pair.2) → motive (.object members)) :
    ∀ value, motive value
  | .bool value => bool value
  | .number value => number value
  | .text value => text value
  | .list items => list items fun item _present =>
      Value.induction bool number text list object item
  | .object members => object members fun pair _present =>
      Value.induction bool number text list object pair.2
decreasing_by
  · have below := List.sizeOf_lt_of_mem _present
    simp only [Value.list.sizeOf_spec]
    omega
  · have below := List.sizeOf_lt_of_mem _present
    obtain ⟨name, value⟩ := pair
    simp only [Prod.mk.sizeOf_spec, Value.object.sizeOf_spec] at below ⊢
    omega

end Value

/-! ### Texts in quotes -/

/-- Each short escape that is written stands for its character. -/
theorem lookup_shortEscapes {c letter : Char} (h : shortEscape? c = some letter) :
    shortEscapes.lookup letter = some c := by
  have back : ∀ pair ∈ [('"', '"'), ('\\', '\\'), ('\x08', 'b'), ('\t', 't'), ('\n', 'n'),
      ('\x0c', 'f'), ('\r', 'r')], shortEscapes.lookup pair.2 = some pair.1 := by decide
  obtain ⟨before, after, whole, -⟩ := List.lookup_eq_some_iff.mp h
  exact back (c, letter) (by rw [whole]; simp)

/-- A control character is written with the digits of its number. -/
theorem isUnit_control {number : Nat} (h : number < 0x20) :
    IsUnit ['0', '0', Nat.digitChar (number / 16), Nat.digitChar (number % 16)] number := by
  refine ⟨rfl, ?_⟩
  have read : readNumeral 16 0xFFFF
      ['0', '0', Nat.digitChar (number / 16), Nat.digitChar (number % 16)] = .ok number := by
    interval_cases number <;> decide
  exact ((readNumeral_eq_ok_iff (by decide)).mp read).1

theorem spellsChar_escape (c : Char) : SpellsChar c (escape c) := by
  unfold escape
  split
  · next letter short => exact .short (lookup_shortEscapes short)
  · next long =>
    split
    · next control => exact .unit (by omega) (isUnit_control control)
    · next visible =>
      have quote : c ≠ '"' := by
        rintro rfl
        exact nomatch long
      have slash : c ≠ '\\' := by
        rintro rfl
        exact nomatch long
      exact .plain (by simp [isPlain, quote, slash, Nat.le_of_not_lt visible])

theorem spellsText_escape (text : Text) : SpellsText text (text.flatMap escape) := by
  induction text with
  | nil => exact .nil
  | cons c text ih =>
      rw [List.flatMap_cons]
      exact .cons (spellsChar_escape c) ih

theorem spells_quoted (text : Text) : Spells (.value (.text text)) (quoted text) :=
  .text (spellsText_escape text)

/-! ### Values -/

section

variable (style : Style) (depth : Nat)

theorem isBlanks_lineStart : IsBlanks (style.lineStart depth) := by
  cases style with
  | compact => exact isBlanks_nil
  | indented =>
      refine List.forall_mem_cons.mpr ⟨by decide, ?_⟩
      intro c space
      rw [List.eq_of_mem_replicate space]
      decide

/-- The items of a list are written with the line starts as blanks before them. -/
theorem spells_writeItems {item : Value} {items : List Value} {closing : Text}
    (h : ∀ value ∈ item :: items, Spells (.value value.tree) (value.writeAt style depth))
    (hclosing : IsBlanks closing) :
    Spells (.items ((item :: items).map Value.tree))
      (style.lineStart depth ++
        (item.writeAt style depth ++ (Value.writeItems style depth items ++ closing))) := by
  induction items generalizing item with
  | nil =>
      rw [Value.writeItems, List.nil_append]
      exact .lastItem (.item (isBlanks_lineStart style depth) (h item (by simp)) hclosing)
  | cons next items ih =>
      rw [List.forall_mem_cons] at h
      have first := Spells.item (isBlanks_lineStart style depth) h.1 isBlanks_nil
      simpa [Value.writeItems] using Spells.moreItems first (ih h.2)

/-- The members of an object are written with the line starts as blanks before them, and with
the blanks of the colon before their values. -/
theorem spells_member {name : Text} {value : Value} {closing : Text}
    (h : Spells (.value value.tree) (value.writeAt style depth)) (hclosing : IsBlanks closing) :
    Spells (.member name value.tree)
      (style.lineStart depth ++
        (quoted name ++ (style.colon ++ (value.writeAt style depth ++ closing)))) := by
  obtain ⟨blanks, hblanks, colon⟩ : ∃ blanks, IsBlanks blanks ∧ style.colon = ':' :: blanks := by
    cases style with
    | compact => exact ⟨[], isBlanks_nil, rfl⟩
    | indented => exact ⟨[' '], by decide, rfl⟩
  have member := Spells.member (isBlanks_lineStart style depth) (spellsText_escape name)
    isBlanks_nil (.item hblanks h hclosing)
  simpa [quoted, colon] using member

theorem spells_writeMembers {name : Text} {value : Value} {members : List (Text × Value)}
    {closing : Text}
    (h : ∀ pair ∈ (name, value) :: members,
      Spells (.value pair.2.tree) (pair.2.writeAt style depth))
    (hclosing : IsBlanks closing) :
    Spells (.members (Value.memberTrees ((name, value) :: members)))
      (style.lineStart depth ++ (quoted name ++ (style.colon ++
        (value.writeAt style depth ++ (Value.writeMembers style depth members ++ closing))))) := by
  induction members generalizing name value with
  | nil =>
      rw [Value.writeMembers, List.nil_append]
      exact .lastMember (spells_member style depth (h (name, value) (by simp)) hclosing)
  | cons next members ih =>
      obtain ⟨name', value'⟩ := next
      rw [List.forall_mem_cons] at h
      have first : Spells (.member name value.tree) _ := spells_member style depth h.1 isBlanks_nil
      rw [Value.memberTrees]
      simpa [Value.writeMembers] using Spells.moreMembers first (ih h.2)

end

/-- The text of a value is a JSON text, at whatever depth it stands. -/
theorem spells_writeAt (style : Style) (value : Value) (depth : Nat) :
    Spells (.value value.tree) (value.writeAt style depth) := by
  induction value using Value.induction generalizing depth with
  | bool value =>
      cases value with
      | true => exact .yes
      | false => exact .no
  | number value => exact .number (isNumber_decimal value)
  | text value => exact spells_quoted value
  | list items ih =>
      cases items with
      | nil => exact .noItems isBlanks_nil
      | cons item items =>
          have inside := spells_writeItems style (depth + 1) (fun value present =>
            ih value present (depth + 1)) (isBlanks_lineStart style depth)
          rw [Value.tree, Value.trees_eq]
          simpa [Value.writeAt] using Spells.list inside
  | object members ih =>
      cases members with
      | nil => exact .noMembers isBlanks_nil
      | cons first members =>
          obtain ⟨name, value⟩ := first
          have inside := spells_writeMembers style (depth + 1) (fun pair present =>
            ih pair present (depth + 1)) (isBlanks_lineStart style depth)
          rw [Value.tree]
          simpa [Value.writeAt] using Spells.object inside

theorem isJson_write (style : Style) (value : Value) : IsJson value.tree (value.write style) := by
  simpa [IsJson, Value.write] using
    Spells.item isBlanks_nil (spells_writeAt style value 0) isBlanks_nil

/-- What is written in either style is read back. -/
theorem read?_write (style : Style) (value : Value) :
    Tree.read? (value.write style) = some value.tree :=
  read?_of_isJson (isJson_write style value)

end Json

end FetchQuery
