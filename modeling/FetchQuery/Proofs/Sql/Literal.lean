import FetchQuery.Translate
import FetchQuery.Proofs.Request.Document
import FetchQuery.Proofs.Sql.Lines

/-!
# The literals of a query

Who reads a query takes a quote for the beginning of a literal, which goes on to the next quote that
is not doubled, and a doubled quote in it for a quote. Values are written as they are, so a literal
denotes its value exactly if the value holds no quote (`literals_of_translate_iff`). A quote in a
value ends the literal, and what is behind it is read as part of the query
(`literals_of_quoted_value`).
-/

namespace FetchQuery

open Text Outcome

namespace Sql

/-- What a literal denotes, from behind the quote that begins it, and what is behind the quote that
ends it. -/
def readLiteral : Text → Option (Text × Text)
  | [] => none
  | '\'' :: '\'' :: rest => (readLiteral rest).map fun (value, after) => ('\'' :: value, after)
  | '\'' :: rest => some ([], rest)
  | c :: rest => (readLiteral rest).map fun (value, after) => (c :: value, after)

/-- A text with each quote in it written twice. -/
def doubled : Text → Text
  | [] => []
  | c :: text => if c = '\'' then '\'' :: '\'' :: doubled text else c :: doubled text

theorem doubled_quote (text : Text) : doubled ('\'' :: text) = '\'' :: '\'' :: doubled text := rfl

theorem doubled_cons {c : Char} (plain : c ≠ '\'') (text : Text) :
    doubled (c :: text) = c :: doubled text :=
  if_neg plain

theorem doubled_of_free {text : Text} (free : '\'' ∉ text) : doubled text = text := by
  induction text with
  | nil => rfl
  | cons c text ih =>
      rw [List.mem_cons, not_or] at free
      rw [doubled_cons (Ne.symm free.1), ih free.2]

section

variable {text value rest : Text}

/-- A literal is what it denotes, with doubled quotes, and a quote that is not doubled. -/
theorem readLiteral_eq_some_iff :
    readLiteral text = some (value, rest) ↔
      text = doubled value ++ '\'' :: rest ∧ rest.head? ≠ some '\'' := by
  constructor
  · intro h
    fun_induction readLiteral text generalizing value with
    | case1 => exact nomatch h
    | case2 more ih =>
        obtain ⟨⟨inner, after⟩, read, same⟩ := Option.map_eq_some_iff.mp h
        cases same
        obtain ⟨rfl, single⟩ := ih read
        exact ⟨rfl, single⟩
    | case3 more single =>
        cases h
        refine ⟨rfl, fun starts => ?_⟩
        obtain ⟨later, same⟩ := List.head?_eq_some_iff.mp starts
        exact single later same
    | case4 c more _ plain ih =>
        obtain ⟨⟨inner, after⟩, read, same⟩ := Option.map_eq_some_iff.mp h
        cases same
        obtain ⟨rfl, single⟩ := ih read
        rw [doubled_cons plain]
        exact ⟨rfl, single⟩
  · rintro ⟨rfl, single⟩
    induction value with
    | nil =>
        cases rest with
        | nil => rfl
        | cons c rest =>
            have plain : c ≠ '\'' := fun same => single (congrArg some same)
            change readLiteral ('\'' :: c :: rest) = _
            rw [readLiteral]
            simpa using plain
    | cons c value ih =>
        by_cases quote : c = '\''
        · subst quote
          rw [doubled_quote, List.cons_append, List.cons_append, readLiteral, ih]
          rfl
        · rw [doubled_cons quote, List.cons_append, readLiteral, ih]
          · rfl
          all_goals simp [quote]

end

/-- What the literals of a query denote, if each of them is ended. -/
def literals : Text → Option (List Text)
  | [] => some []
  | c :: rest =>
      if c = '\'' then
        match _read : readLiteral rest with
        | none => none
        | some (value, after) => (literals after).map (value :: ·)
      else literals rest
termination_by text => text.length
decreasing_by
  · have whole := (readLiteral_eq_some_iff.mp _read).1
    rw [whole, List.length_cons, List.length_append, List.length_cons]
    omega
  · exact Nat.lt_succ_self rest.length

section

variable {plain value rest after : Text}

theorem literals_append (free : '\'' ∉ plain) (rest : Text) :
    literals (plain ++ rest) = literals rest := by
  induction plain with
  | nil => rfl
  | cons c plain ih =>
      rw [List.mem_cons, not_or] at free
      rw [List.cons_append, literals, if_neg (Ne.symm free.1), ih free.2]

theorem literals_quote (text : Text) :
    literals ('\'' :: text) =
      (readLiteral text).bind fun (value, after) => (literals after).map (value :: ·) := by
  rw [literals, if_pos rfl]
  split
  · next read => rw [read]; rfl
  · next read => rw [read]; rfl

/-! ### Values that are written as they are -/

/-- Quotes that are not doubled are fewer than doubled ones, so that they end too early. -/
theorem ne_quotes (single : rest.head? ≠ some '\'') (quotes : Nat) (value : Text) :
    value ++ '\'' :: rest ≠
      '\'' :: (List.replicate quotes '\'' ++ (doubled value ++ '\'' :: after)) := by
  induction value generalizing quotes with
  | nil =>
      intro same
      have starts := congrArg List.head? (List.cons.inj same).2
      cases quotes with
      | zero => exact single starts
      | succ quotes => exact single starts
  | cons c value ih =>
      intro same
      obtain ⟨rfl, -⟩ := List.cons.inj same
      have later : value ++ '\'' :: rest =
          List.replicate quotes '\'' ++ (doubled ('\'' :: value) ++ '\'' :: after) :=
        (List.cons.inj same).2
      apply ih (quotes + 1)
      rw [later, doubled_quote, ← List.cons_append, ← List.replicate_succ, List.replicate_succ',
        List.replicate_succ']
      simp

/-- A literal denotes a text that is written as it is only if the text holds no quote. -/
theorem free_of_append_eq_doubled (single : rest.head? ≠ some '\'')
    (same : value ++ '\'' :: rest = doubled value ++ '\'' :: after) : '\'' ∉ value := by
  induction value with
  | nil => exact List.not_mem_nil
  | cons c value ih =>
      by_cases quote : c = '\''
      · subst quote
        rw [doubled_quote] at same
        exact absurd (List.cons.inj same).2 (ne_quotes single 0 value)
      · rw [doubled_cons quote] at same
        rw [List.mem_cons, not_or]
        exact ⟨Ne.symm quote, ih (List.cons.inj same).2⟩

/-- The first literal of a query is a value that is written between quotes as it is, exactly if the
value holds no quote. -/
theorem literals_value_iff (free : '\'' ∉ plain) (single : rest.head? ≠ some '\'')
    {others : List Text} :
    literals (plain ++ '\'' :: (value ++ '\'' :: rest)) = some (value :: others) ↔
      '\'' ∉ value ∧ literals rest = some others := by
  rw [literals_append free, literals_quote]
  constructor
  · intro h
    obtain ⟨⟨inner, after⟩, read, found⟩ := Option.bind_eq_some_iff.mp h
    obtain ⟨later, read', same⟩ := Option.map_eq_some_iff.mp found
    cases same
    have whole := (readLiteral_eq_some_iff.mp read).1
    have unquoted := free_of_append_eq_doubled single whole
    rw [doubled_of_free unquoted, List.append_cancel_left_eq] at whole
    obtain ⟨-, rfl⟩ := List.cons.inj whole
    exact ⟨unquoted, read'⟩
  · rintro ⟨unquoted, read⟩
    have first : readLiteral (value ++ '\'' :: rest) = some (value, rest) :=
      readLiteral_eq_some_iff.mpr ⟨by rw [doubled_of_free unquoted], single⟩
    rw [first, Option.bind_some]
    exact congrArg (Option.map (value :: ·)) read

end

/-! ### Queries -/

/-- An entity in whose names there is no quote. -/
structure NamesUnquoted (entity : Entity) : Prop where
  name : '\'' ∉ entity.name
  columns : ∀ column ∈ entity.attributes, '\'' ∉ column
  terms : ∀ condition ∈ conditions entity, '\'' ∉ (shown condition).1

section

variable {options : Options}

theorem quote_notMem_itemStart : '\'' ∉ options.itemStart := by
  rw [Options.itemStart]
  cases options.lineBreak <;> simp [LineBreak.text]

theorem quote_notMem_items {items : List Text} (free : ∀ item ∈ items, '\'' ∉ item) :
    '\'' ∉ options.items items := by
  rw [items_eq, LineBreak.below, List.mem_flatMap]
  rintro ⟨line, present, inside⟩
  rcases List.mem_append.mp inside with inBreak | inLine
  · exact quote_notMem_itemStart (List.mem_append_left _ inBreak)
  · rcases mem_of_mem_itemLines present inLine with space | comma | ⟨item, among, inItem⟩
    · exact absurd space (by decide)
    · exact absurd comma (by decide)
    · exact free item among inItem

theorem literals_equality_iff {condition : Condition} {rest : Text} {others : List Text}
    (column : '\'' ∉ (shown condition).1) (single : rest.head? ≠ some '\'') :
    literals (equality condition ++ rest) = some ((shown condition).2 :: others) ↔
      '\'' ∉ (shown condition).2 ∧ literals rest = some others := by
  have free : '\'' ∉ (shown condition).1 ++ [' ', '=', ' '] := by simp [column]
  have whole : equality condition ++ rest =
      ((shown condition).1 ++ [' ', '=', ' ']) ++
        '\'' :: ((shown condition).2 ++ '\'' :: rest) := by
    simp [equality_eq]
  rw [whole]
  exact literals_value_iff free single

/-- The literals of some conditions denote their values exactly if no value holds a quote. -/
theorem literals_terms_iff {first : Condition} {others : List Condition}
    (columns : ∀ condition ∈ first :: others, '\'' ∉ (shown condition).1) :
    literals (List.intercalate (',' :: options.itemStart) ((first :: others).map equality)) =
        some ((first :: others).map fun condition => (shown condition).2) ↔
      ∀ condition ∈ first :: others, '\'' ∉ (shown condition).2 := by
  induction others generalizing first with
  | nil =>
      rw [List.forall_mem_singleton] at columns ⊢
      rw [List.map_singleton, List.map_singleton, List.intercalate_singleton,
        ← List.append_nil (equality first), literals_equality_iff columns (by simp), literals]
      exact and_iff_left rfl
  | cons next others ih =>
      rw [List.forall_mem_cons] at columns ⊢
      have comma : '\'' ∉ ',' :: options.itemStart := by
        rw [List.mem_cons, not_or]
        exact ⟨by decide, quote_notMem_itemStart⟩
      rw [List.map_cons, List.map_cons, List.map_cons, List.intercalate_cons_cons,
        ← List.map_cons, List.append_assoc, literals_equality_iff columns.1 (by simp),
        literals_append comma, ih columns.2]

/-- The literals of a query denote the values of the conditions, in order, exactly if no value holds
a quote. -/
theorem literals_render_iff {request : Request} (names : NamesUnquoted request.entity) :
    literals (render options request) =
        some ((conditions request.entity).map fun condition => (shown condition).2) ↔
      ∀ condition ∈ conditions request.entity, '\'' ∉ (shown condition).2 := by
  obtain ⟨name, columns, terms⟩ := names
  have header : '\'' ∉ header request.rowLimit := mark_notMem_header (by decide) (by decide) _
  have start : '\'' ∉ options.itemStart := quote_notMem_itemStart
  have lineBreak : '\'' ∉ options.lineBreak.text := fun inside =>
    start (List.mem_append_left _ inside)
  have names : '\'' ∉ options.items [request.entity.name] :=
    quote_notMem_items (List.forall_mem_singleton.mpr name)
  have free : '\'' ∉ Sql.header request.rowLimit ++ options.items request.entity.attributes ++
      options.lineBreak.text ++ "FROM" ++ options.items [request.entity.name] := by
    simp [header, quote_notMem_items columns, lineBreak, names]
  rw [render, literals_append free]
  cases given : conditions request.entity with
  | nil =>
    simp [whereClause, literals]
  | cons first others =>
    rw [given] at terms
    have above : '\'' ∉ options.lineBreak.text ++ "WHERE" ++ options.itemStart := by
      simp [lineBreak, start]
    have whole : whereClause options (first :: others) =
        (options.lineBreak.text ++ "WHERE" ++ options.itemStart) ++
          List.intercalate (',' :: options.itemStart) ((first :: others).map equality) := by
      simp [whereClause, Options.items]
    rw [whole, literals_append above]
    exact literals_terms_iff terms

end

/-- A query of a document in whose names there is no quote has a literal for each condition, in
order, that denotes its value, exactly if no value holds a quote. -/
theorem literals_of_translate_iff (options : Options) {document query : Text}
    (translated : translate options document = .ok query) :
    ∃ request, Request.ofDocument document = .ok request ∧
      (NamesUnquoted request.entity →
        (literals query =
            some ((conditions request.entity).map fun condition => (shown condition).2) ↔
          ∀ condition ∈ conditions request.entity, '\'' ∉ (shown condition).2)) := by
  obtain ⟨request, stated, rendered⟩ := bind_eq_ok_iff.mp translated
  cases rendered
  exact ⟨request, stated, literals_render_iff⟩

/-- Values that look like other parts of a query stay in their literals. -/
theorem literals_of_translate_iff_keywords :
    let document : Text := "<fetch><entity name='a'><filter><condition attribute='b' " ++
      ("value=', c = \"d\"&#10;WHERE'/><condition/></filter></entity></fetch>" : Text)
    let query : Text := "SELECT \n    \nFROM\n    a\nWHERE\n    b = ', c = \"d\"\nWHERE',\n     = ''"
    let first : Condition := ⟨some "b", none, some ", c = \"d\"\nWHERE"⟩
    let request : Request :=
      ⟨0, false, ⟨"a", [], some ⟨[first, ⟨none, none, none⟩]⟩, none, none⟩⟩
    translate {} document = .ok query ∧ Request.ofDocument document = .ok request ∧
      NamesUnquoted request.entity ∧
        literals query = some [(", c = \"d\"\nWHERE" : Text), []] := by
  intro document query first request
  have stated : Request.ofDocument document = .ok request := by decide +kernel
  have translated : translate {} document = .ok query := by
    rw [translate, stated]
    decide +kernel
  have names : NamesUnquoted request.entity := by
    constructor <;> decide +kernel
  obtain ⟨request', stated', denotes⟩ := literals_of_translate_iff {} translated
  obtain rfl : request = request' := Except.ok.inj (stated.symm.trans stated')
  exact ⟨translated, stated, names, (denotes names).mpr (by decide +kernel)⟩

/-- A quote in a value ends the literal, and the query is not ended. -/
theorem literals_of_quoted_value :
    let document : Text := "<fetch><entity name='account'><filter>" ++
      ("<condition attribute='name' value='O&apos;Brien'/></filter></entity></fetch>" : Text)
    let query : Text := "SELECT \n    \nFROM\n    account\nWHERE\n    name = 'O'Brien'"
    let condition : Condition := ⟨some "name", none, some "O'Brien"⟩
    let request : Request := ⟨0, false, ⟨"account", [], some ⟨[condition]⟩, none, none⟩⟩
    translate {} document = .ok query ∧ Request.ofDocument document = .ok request ∧
      NamesUnquoted request.entity ∧ literals query ≠ some [("O'Brien" : Text)] ∧
      literals query = none := by
  intro document query condition request
  have names : NamesUnquoted request.entity := by
    constructor <;> decide +kernel
  have stated : Request.ofDocument document = .ok request := by decide +kernel
  have translated : translate {} document = .ok query := by
    rw [translate, stated]
    decide +kernel
  have unended : literals query = none := by decide +kernel
  refine ⟨translated, stated, names, ?_, unended⟩
  rw [unended]
  exact nofun

end Sql

end FetchQuery
