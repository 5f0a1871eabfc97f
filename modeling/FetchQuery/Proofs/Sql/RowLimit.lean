import FetchQuery.Translate
import FetchQuery.Proofs.Request.Document
import FetchQuery.Proofs.Sql.Lines

/-!
# The row limit of a query

The first line of a query shows the row limit that the root of the document asks for. A limit is
asked for by the decimal digits of a number within bounds, with any number of leading zeros, a
plus sign or none in front and white space around them. Anything else asks for no limit, and no
document is refused for it (`firstLine_of_translate`).
-/

namespace FetchQuery

open Text Xml Outcome

namespace Sql

/-- A value that asks for so many rows. -/
structure AsksFor (value : Option Text) (number : Nat) : Prop where
  positive : 1 ≤ number
  bounded : number ≤ 2147483647
  written : ∃ before sign digits after : Text,
    value = some (before ++ ((sign ++ digits) ++ after)) ∧
      (∀ c ∈ before, isWhiteSpace c = true) ∧ (∀ c ∈ after, isWhiteSpace c = true) ∧
      (sign = [] ∨ sign = ['+']) ∧ digits ≠ [] ∧ (∀ c ∈ digits, c.isDigit = true) ∧
      Nat.ofDigitChars 10 digits 0 = number

/-- The first line of a query that is laid out in some way. -/
def firstLine? (options : Options) (query : Text) : Option Text :=
  (cut? options.lineBreak.text query).map Prod.fst

/-! ### Limits that are read -/

/-- A sign and digits are not trimmed, and nothing else than white space is trimmed off them. -/
theorem trim_eq_signed {text sign digits : Text} {number : Nat} (hsign : sign = [] ∨ sign = ['+'])
    (numeral : IsNumeral 10 digits number) :
    trim text = sign ++ digits ↔ ∃ before after,
      text = before ++ ((sign ++ digits) ++ after) ∧ (∀ c ∈ before, isWhiteSpace c = true) ∧
        ∀ c ∈ after, isWhiteSpace c = true := by
  constructor
  · intro trimmed
    obtain ⟨before, after, whole, white, white'⟩ := exists_eq_trim text
    exact ⟨before, after, trimmed ▸ whole, white, white'⟩
  · rintro ⟨before, after, rfl, white, white'⟩
    have visible : ∀ c ∈ sign ++ digits, isWhiteSpace c = false := by
      rw [List.forall_mem_append]
      refine ⟨?_, fun c inside => isWhiteSpace_of_isAlphanum (numeral.isAlphanum c inside)⟩
      rcases hsign with rfl | rfl
      · exact List.forall_mem_nil _
      · exact List.forall_mem_singleton.mpr (by decide)
    apply trim_append white white'
    · exact fun c first => visible c (List.mem_of_mem_head? first)
    · exact fun c last => visible c (List.mem_of_getLast? last)
    · exact List.append_ne_nil_of_right_ne_nil sign numeral.1

/-- A limit other than zero is read exactly from a value that asks for it. -/
theorem asksFor_iff {value : Option Text} {number : Nat} :
    AsksFor value number ↔ 1 ≤ number ∧ (readRowLimit value).toNat = number := by
  constructor
  · rintro ⟨positive, bounded, before, sign, digits, after, rfl, white, white', hsign, numeral⟩
    have isNumeral : IsNumeral 10 digits number := isNumeral_ten_iff.mpr numeral
    have trimmed := (trim_eq_signed hsign isNumeral).mpr ⟨before, after, rfl, white, white'⟩
    have read : readUnsigned rowLimitBound (sign ++ digits) = .ok number :=
      readUnsigned_eq_ok_iff.mpr ⟨⟨sign, digits, rfl, hsign, isNumeral⟩, bounded⟩
    have fits : number < UInt32.size := Nat.lt_of_le_of_lt bounded (by decide)
    rw [readRowLimit, trimmed, read]
    exact ⟨positive, Nat.mod_eq_of_lt fits⟩
  · rintro ⟨positive, same⟩
    unfold readRowLimit at same
    split at same
    · exact absurd same.symm (Nat.ne_of_gt positive)
    · next text =>
      split at same
      · next limit read =>
        obtain ⟨⟨sign, digits, trimmed, hsign, numeral⟩, bounded⟩ := readUnsigned_eq_ok_iff.mp read
        have fits : limit < UInt32.size := Nat.lt_of_le_of_lt bounded (by decide)
        obtain rfl : limit = number := (Nat.mod_eq_of_lt fits).symm.trans same
        obtain ⟨before, after, rfl, white, white'⟩ := (trim_eq_signed hsign numeral).mp trimmed
        exact ⟨positive, bounded, before, sign, digits, after, rfl, white, white', hsign,
          isNumeral_ten_iff.mp numeral⟩
      · exact absurd same.symm (Nat.ne_of_gt positive)

/-! ### The first line -/

theorem header_eq_iff {rowLimit : UInt32} {number : Nat} :
    header rowLimit = "SELECT TOP " ++ decimal number ↔ 1 ≤ number ∧ rowLimit.toNat = number := by
  unfold header
  split
  · next zero =>
    subst zero
    constructor
    · intro same
      simp at same
    · rintro ⟨positive, rfl⟩
      exact absurd positive (by decide)
  · next limited =>
    rw [List.append_cancel_left_eq]
    constructor
    · intro same
      have number_eq := decimal_injective same
      refine ⟨number_eq ▸ Nat.pos_of_ne_zero fun zero => limited ?_, number_eq⟩
      exact UInt32.toNat_inj.mp zero
    · rintro ⟨-, rfl⟩
      rfl

/-- The first line of a query is its header. -/
theorem firstLine?_render (options : Options) (request : Request) :
    firstLine? options (render options request) = some (header request.rowLimit) := by
  have unbordered : Unbordered options.lineBreak.text := by cases options.lineBreak <;> decide
  have absent : ¬ options.lineBreak.text <:+: header request.rowLimit := fun inside =>
    not_mem_header request.rowLimit (inside.mem (lineFeed_mem_text _))
  obtain ⟨line, lines, body⟩ : ∃ line lines, options.bodyLines request.entity = line :: lines :=
    List.exists_cons_of_ne_nil (List.append_ne_nil_of_right_ne_nil _ (List.cons_ne_nil _ _))
  rw [render_eq, body, LineBreak.below_cons, firstLine?, cut?_of_not_infix unbordered _ absent]
  rfl

/-! ### Documents that are refused -/

/-- Whether a root states a request, and why not, has nothing to do with its attributes. -/
theorem fault?_ofElement_of_children_eq {root root' : Element} (name : root'.name = root.name)
    (children : root'.children = root.children) :
    fault? (Request.ofElement root') = fault? (Request.ofElement root) := by
  obtain ⟨tag, keys, inner⟩ := root
  obtain ⟨tag', keys', inner'⟩ := root'
  cases name
  cases children
  unfold Request.ofElement Element.hasTag
  dsimp only
  split
  · split
    · rfl
    · split
      · rw [fault?_bind_pure, fault?_bind_pure]
      · rfl
  · rfl

/-- The first line of a query shows a row limit exactly if the root of the document asks for it, and
no row limit if the root asks for none. Documents that differ in attributes of the root only, such
as the row limit, are refused alike. -/
theorem firstLine_of_translate (options : Options) (document : Text) :
    (∀ query, translate options document = .ok query → ∃ root line,
      Element.ofDocument document = .ok root ∧ firstLine? options query = some line ∧
        (∀ number, line = "SELECT TOP " ++ decimal number ↔
          AsksFor (root.attribute? "top") number) ∧
        ((∀ number, ¬ AsksFor (root.attribute? "top") number) → line = "SELECT ")) ∧
    ∀ root other root', Element.ofDocument document = .ok root →
      Element.ofDocument other = .ok root' → root'.name = root.name →
      root'.children = root.children →
      ∀ fault, translate options other = .error fault ↔ translate options document = .error fault := by
  constructor
  · intro query translated
    obtain ⟨request, stated, rendered⟩ := bind_eq_ok_iff.mp translated
    obtain ⟨root, read, given⟩ := Request.ofDocument_eq_ok_iff.mp stated
    obtain ⟨-, -, rowLimit, -⟩ := Request.ofElement_eq_ok_iff.mp given
    cases rendered
    refine ⟨root, _, read, firstLine?_render options request, fun number => ?_, fun unasked => ?_⟩
    · rw [header_eq_iff, asksFor_iff, rowLimit]
    · have unlimited : request.rowLimit = 0 := by
        by_contra limited
        apply unasked request.rowLimit.toNat
        rw [asksFor_iff, ← rowLimit]
        exact ⟨Nat.pos_of_ne_zero fun zero => limited (UInt32.toNat_inj.mp zero), rfl⟩
      rw [unlimited]
      rfl
  · intro root other root' read read' name children fault
    rw [← fault?_eq_some_iff, ← fault?_eq_some_iff, translate, translate, fault?_bind_pure,
      fault?_bind_pure, Request.ofDocument_of_ok read, Request.ofDocument_of_ok read',
      fault?_ofElement_of_children_eq name children]

/-- A signed limit with zeros and white space is shown. One above the bounds is not, and does not
change why the document is refused. -/
theorem firstLine_of_translate_signed :
    let document : Text := "<fetch top='\u3000+0007&#10;'><entity name='a'/></fetch>"
    let query : Text := "SELECT TOP 7\n    \nFROM\n    a"
    let refused : Text := "<fetch top='7'><entity/></fetch>"
    let refused' : Text := "<fetch no-lock='' top='2147483648'><entity/></fetch>"
    translate {} document = .ok query ∧ firstLine? {} query = some "SELECT TOP 7" ∧
      (∃ root, Element.ofDocument document = .ok root ∧ AsksFor (root.attribute? "top") 7) ∧
      translate {} refused = .error (.missing "entity" "name") ∧
      translate {} refused' = .error (.missing "entity" "name") := by
  intro document query refused refused'
  have translated : translate {} document = .ok query := by decide +kernel
  have first : firstLine? {} query = some "SELECT TOP 7" := by decide +kernel
  let entity : Element := ⟨"entity", [], []⟩
  let root : Element := ⟨"fetch", [⟨"top", "7"⟩], [entity]⟩
  let root' : Element := ⟨"fetch", [⟨"no-lock", ""⟩, ⟨"top", "2147483648"⟩], [entity]⟩
  have read : Element.ofDocument refused = .ok root := by decide +kernel
  have read' : Element.ofDocument refused' = .ok root' := by decide +kernel
  have missing : translate {} refused = .error (.missing "entity" "name") := by
    rw [translate, Request.ofDocument_of_ok read]
    decide +kernel
  obtain ⟨given, line, readable, shows, limited, -⟩ :=
    (firstLine_of_translate {} document).1 query translated
  obtain rfl : ("SELECT TOP 7" : Text) = line := Option.some.inj (first.symm.trans shows)
  refine ⟨translated, first, ⟨given, readable, (limited 7).mp (by decide +kernel)⟩, missing, ?_⟩
  exact ((firstLine_of_translate {} refused).2 root refused' root' read read' rfl rfl _).mpr missing

end Sql

end FetchQuery
