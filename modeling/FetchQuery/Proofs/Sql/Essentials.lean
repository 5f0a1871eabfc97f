import FetchQuery.Translate
import FetchQuery.Proofs.Request.Document
import FetchQuery.Proofs.Sql.Lines

/-!
# What of a document is in its query

The essentials of a document are the row limit, the name of its entity, the names of the
direct columns, and the columns and values in the first direct filter. The query shows the
essentials of the request (`render_eq_of_essentials_eq`), and those are the essentials of the
root, whatever else stands in it (`Essentials.ofRoot?_of_ofElement`). So documents that agree
on them have the same query.
-/

namespace FetchQuery

namespace Sql

open Text Xml Outcome

/-- What is written in a query. -/
structure Essentials where
  rowLimit : UInt32
  name : Option Text
  columns : List (Option Text)
  /-- The columns and values of the conditions, empty if absent. -/
  terms : List (Text × Text)
  deriving DecidableEq, Repr

namespace Essentials

/-- The columns and values of the conditions that a filter states. -/
def termsOf (filter : Element) : List (Text × Text) :=
  filter.children.map fun child =>
    ((child.attribute? "attribute").getD [], (child.attribute? "value").getD [])

/-- The essentials of a root with an entity in it. -/
def ofRoot? (root : Element) : Option Essentials :=
  root.children.head?.map fun entity => {
    rowLimit := readRowLimit (root.attribute? "top")
    name := entity.attribute? "name"
    columns := (entity.childrenNamed "attribute").map fun column => column.attribute? "name"
    terms := (entity.filter?.map termsOf).getD [] }

/-- The essentials of a document. -/
def ofDocument? (document : Text) : Option Essentials :=
  match Element.ofDocument document with
  | .ok root => ofRoot? root
  | .error _ => none

/-- The essentials of a request. -/
def ofRequest (request : Request) : Essentials where
  rowLimit := request.rowLimit
  name := some request.entity.name
  columns := request.entity.attributes.map some
  terms := (conditions request.entity).map shown

end Essentials

/-! ### A query shows the essentials -/

theorem map_equality_eq_of_shown_eq {terms terms' : List Condition}
    (same : terms.map shown = terms'.map shown) : terms.map equality = terms'.map equality := by
  have through (terms : List Condition) : terms.map equality =
      (terms.map shown).map fun pair =>
        (pair.1 ++ [' ', '=', ' ']) ++ '\'' :: (pair.2 ++ ['\'']) := by
    rw [List.map_map]
    exact List.map_congr_left fun condition _ => equality_eq condition
  rw [through, through, same]

theorem whereClause_eq_of_shown_eq {options : Options} {terms terms' : List Condition}
    (same : terms.map shown = terms'.map shown) :
    whereClause options terms = whereClause options terms' := by
  have empty : terms.isEmpty = terms'.isEmpty := by
    simpa using congrArg List.isEmpty same
  rw [whereClause, whereClause, empty, map_equality_eq_of_shown_eq same]

/-- Nothing but the essentials of a request is in its query. -/
theorem render_eq_of_essentials_eq {options : Options} {first second : Request}
    (same : Essentials.ofRequest first = Essentials.ofRequest second) :
    render options first = render options second := by
  obtain ⟨rowLimit, name, columns, terms⟩ := Essentials.mk.inj same
  have attributes : first.entity.attributes = second.entity.attributes :=
    List.map_injective_iff.mpr (Option.some_injective Text) columns
  simp only [render, rowLimit, Option.some.inj name, attributes, whereClause_eq_of_shown_eq terms]

/-! ### The essentials of what is read -/

theorem map_shown_ofElement? (filter : Element) :
    ((Filter.ofElement? filter).map fun stated => stated.conditions.map shown).getD [] =
      Essentials.termsOf filter := by
  unfold Filter.ofElement? Essentials.termsOf
  cases filter.children with
  | nil => rfl
  | cons child children =>
      simp only [Option.map_some, Option.getD_some, List.map_map]
      rfl

/-- The conditions of an entity that is read are those of its first filter, if it has one. -/
theorem map_shown_conditions {element : Element} {entity : Entity}
    (filter : entity.filter = element.filter?.bind Filter.ofElement?) :
    (conditions entity).map shown = (element.filter?.map Essentials.termsOf).getD [] := by
  have through : (conditions entity).map shown =
      (entity.filter.map fun stated => stated.conditions.map shown).getD [] := by
    unfold conditions
    cases entity.filter <;> rfl
  rw [through, filter]
  cases element.filter? with
  | none => rfl
  | some first => exact map_shown_ofElement? first

/-- A request has the essentials of the root that states it. -/
theorem Essentials.ofRoot?_of_ofElement {root : Element} {request : Request}
    (h : Request.ofElement root = .ok request) :
    Essentials.ofRoot? root = some (Essentials.ofRequest request) := by
  obtain ⟨-, ⟨first, isFirst, -, stated⟩, rowLimit, -⟩ := Request.ofElement_eq_ok_iff.mp h
  obtain ⟨name, columns, -, filter, -⟩ := Entity.ofElement_eq_ok_iff.mp stated
  have names : (first.childrenNamed "attribute").map (fun column => column.attribute? "name") =
      request.entity.attributes.map some := by
    rw [← List.forall₂_eq_eq_eq, List.forall₂_map_left_iff, List.forall₂_map_right_iff]
    exact columns.imp fun _ _ => requiredName_eq_ok_iff.mp
  rw [Essentials.ofRoot?, Option.mem_def.mp isFirst, Option.map_some, names,
    requiredName_eq_ok_iff.mp name, ← rowLimit, ← map_shown_conditions filter]
  rfl

/-- Documents that state requests and have the same essentials have the same query. -/
theorem translate_eq_of_essentials_eq (options : Options) {first second : Text}
    (states : ∃ request, Request.ofDocument first = .ok request)
    (states' : ∃ request, Request.ofDocument second = .ok request)
    (same : Essentials.ofDocument? first = Essentials.ofDocument? second) :
    ∃ query, translate options first = .ok query ∧ translate options second = .ok query := by
  have read {document : Text} {request : Request} (h : Request.ofDocument document = .ok request) :
      Essentials.ofDocument? document = some (Essentials.ofRequest request) ∧
        translate options document = .ok (render options request) := by
    obtain ⟨root, hroot, stated⟩ := Request.ofDocument_eq_ok_iff.mp h
    constructor
    · rw [Essentials.ofDocument?, hroot]
      exact Essentials.ofRoot?_of_ofElement stated
    · rw [translate, h]
      rfl
  obtain ⟨request, stated⟩ := states
  obtain ⟨request', stated'⟩ := states'
  obtain ⟨essentials, query⟩ := read stated
  obtain ⟨essentials', query'⟩ := read stated'
  rw [essentials, essentials', Option.some.injEq] at same
  exact ⟨render options request, query, by rw [query', render_eq_of_essentials_eq same]⟩

/-- A bare document, and one with all that is left out of a query. -/
theorem translate_eq_of_essentials_eq_decorated :
    let first : Text := "<fetch top='3'><entity name='a'><attribute name='b'/><filter>" ++
      "<condition attribute='c' value='d'/></filter></entity></fetch>"
    let second : Text := "<!-- --><FETCH no-lock='true' top=' +03 '>text<Entity name='&#97;'>" ++
      "<order attribute='e'/><link-entity name='f' from='g' to='h'><attribute name='i'/>" ++
      "<filter><condition attribute='j' value='k'/></filter><link-entity name='l'/>" ++
      "<order/></link-entity><Attribute name='b'></Attribute><Filter>" ++
      "<m operator='lt' attribute='c' value='d'/></Filter><filter><n/></filter></Entity></FETCH>"
    (∃ request, Request.ofDocument first = .ok request) ∧
      (∃ request, Request.ofDocument second = .ok request) ∧
      Essentials.ofDocument? first = Essentials.ofDocument? second ∧
      ∃ query, translate {} first = .ok query ∧ translate {} second = .ok query := by
  intro first second
  let root : Element := ⟨"fetch", [⟨"top", "3"⟩], [⟨"entity", [⟨"name", "a"⟩],
    [⟨"attribute", [⟨"name", "b"⟩], []⟩,
      ⟨"filter", [], [⟨"condition", [⟨"attribute", "c"⟩, ⟨"value", "d"⟩], []⟩]⟩]⟩]⟩
  let link : Element := ⟨"link-entity", [⟨"name", "f"⟩, ⟨"from", "g"⟩, ⟨"to", "h"⟩],
    [⟨"attribute", [⟨"name", "i"⟩], []⟩,
      ⟨"filter", [], [⟨"condition", [⟨"attribute", "j"⟩, ⟨"value", "k"⟩], []⟩]⟩,
      ⟨"link-entity", [⟨"name", "l"⟩], []⟩, ⟨"order", [], []⟩]⟩
  let root' : Element := ⟨"FETCH", [⟨"no-lock", "true"⟩, ⟨"top", " +03 "⟩],
    [⟨"Entity", [⟨"name", "a"⟩],
      [⟨"order", [⟨"attribute", "e"⟩], []⟩, link, ⟨"Attribute", [⟨"name", "b"⟩], []⟩,
        ⟨"Filter", [],
          [⟨"m", [⟨"operator", "lt"⟩, ⟨"attribute", "c"⟩, ⟨"value", "d"⟩], []⟩]⟩,
        ⟨"filter", [], [⟨"n", [], []⟩]⟩]⟩]⟩
  have read : Element.ofDocument first = .ok root := by decide +kernel
  have read' : Element.ofDocument second = .ok root' := by decide +kernel
  have states : ∃ request, Request.ofDocument first = .ok request := by
    rw [Request.ofDocument_of_ok read]
    exact ⟨⟨3, false, ⟨"a", ["b"], some ⟨[⟨some "c", none, some "d"⟩]⟩, none, none⟩⟩,
      by decide +kernel⟩
  have states' : ∃ request, Request.ofDocument second = .ok request := by
    rw [Request.ofDocument_of_ok read']
    let linked : Entity := ⟨"f", ["i"], some ⟨[⟨some "j", none, some "k"⟩]⟩,
      some [⟨⟨none, none⟩, ⟨"l", [], none, none, none⟩⟩], some [⟨none, false⟩]⟩
    exact ⟨⟨3, true, ⟨"a", ["b"], some ⟨[⟨some "c", some "lt", some "d"⟩]⟩,
      some [⟨⟨some "g", some "h"⟩, linked⟩], some [⟨some "e", false⟩]⟩⟩, by decide +kernel⟩
  have same : Essentials.ofDocument? first = Essentials.ofDocument? second := by
    rw [Essentials.ofDocument?, Essentials.ofDocument?, read, read']
    decide +kernel
  exact ⟨states, states', same, translate_eq_of_essentials_eq {} states states' same⟩

end Sql

end FetchQuery
