import FetchQuery.Proofs.Text.Numeral
import FetchQuery.Proofs.Text.Span
import FetchQuery.Sql.Render

/-!
# The lines of a query

A query is a header line and lines below it, each after a line break. Where no name and no
value holds a line feed, the text determines its lines. The lines determine the columns,
the name and the conditions even without an indent and whatever the names are: of the lines
of a clause all but the last end in a comma, so the line `FROM` is at most one place off, and
then a quoted condition would have to be the line `WHERE` (`extra_eq_nil`).
-/

namespace FetchQuery

namespace Sql

open Text

/-- The column and the value of a condition as they are written, empty if absent. -/
def shown (condition : Condition) : Text × Text :=
  (condition.column.getD [], condition.value.getD [])

/-- Lines as text, each after a line break. -/
def LineBreak.below (lineBreak : LineBreak) (lines : List Text) : Text :=
  lines.flatMap fun line => lineBreak.text ++ line

@[simp] theorem LineBreak.below_nil (lineBreak : LineBreak) : lineBreak.below [] = [] := rfl

@[simp] theorem LineBreak.below_append (lineBreak : LineBreak) (first second : List Text) :
    lineBreak.below (first ++ second) = lineBreak.below first ++ lineBreak.below second := by
  simp [below]

@[simp] theorem LineBreak.below_cons (lineBreak : LineBreak) (line : Text) (lines : List Text) :
    lineBreak.below (line :: lines) = lineBreak.text ++ (line ++ lineBreak.below lines) := by
  simp [below]

/-- The line above the name of the entity. -/
def fromLine : Text := "FROM"

/-- The line above the conditions. -/
def whereLine : Text := "WHERE"

namespace Options

/-- The spaces in front of an item. -/
def margin (options : Options) : Text :=
  List.replicate options.indent ' '

/-- The lines of the items of a clause. All but the last end in a comma. -/
def itemLines (options : Options) : List Text → List Text
  | [] => [options.margin]
  | [item] => [options.margin ++ item]
  | item :: next :: items =>
      (options.margin ++ item ++ [',']) :: options.itemLines (next :: items)

/-- The lines of the clause for some conditions, none if there are none. -/
def whereLines (options : Options) : List Condition → List Text
  | [] => []
  | condition :: conditions =>
      whereLine :: options.itemLines (equality condition :: conditions.map equality)

/-- The lines of a query below its header. -/
def bodyLines (options : Options) (entity : Entity) : List Text :=
  options.itemLines entity.attributes ++
    fromLine :: (options.margin ++ entity.name) :: options.whereLines (conditions entity)

end Options

section

variable {options : Options}

theorem items_eq (items : List Text) :
    options.items items = options.lineBreak.below (options.itemLines items) := by
  unfold Options.items
  induction items using Options.itemLines.induct with
  | case1 => simp [Options.itemLines, Options.itemStart, Options.margin, LineBreak.below]
  | case2 item => simp [Options.itemLines, Options.itemStart, Options.margin, LineBreak.below]
  | case3 item next items ih =>
      rw [Options.itemLines, LineBreak.below_cons, ← ih, List.intercalate_cons_cons]
      simp [Options.itemStart, Options.margin]

/-- A query is its header and the lines below it. -/
theorem render_eq (request : Request) : render options request =
    header request.rowLimit ++ options.lineBreak.below (options.bodyLines request.entity) := by
  have whole : whereClause options (conditions request.entity) =
      options.lineBreak.below (options.whereLines (conditions request.entity)) := by
    cases conditions request.entity with
    | nil => rfl
    | cons condition conditions =>
        simp [whereClause, Options.whereLines, whereLine, items_eq]
  rw [render, whole, items_eq, items_eq]
  simp [Options.bodyLines, Options.itemLines, fromLine]

/-! ### A text determines its lines -/

theorem lineFeed_mem_text (lineBreak : LineBreak) : '\n' ∈ lineBreak.text := by
  cases lineBreak <;> decide

/-- A line break is the only line feed after a line without one. -/
theorem eq_of_lineBreak {lineBreak : LineBreak} {first second rest rest' : Text}
    (free : '\n' ∉ first) (free' : '\n' ∉ second)
    (same : first ++ (lineBreak.text ++ rest) = second ++ (lineBreak.text ++ rest')) :
    first = second ∧ rest = rest' := by
  obtain ⟨start, clear, whole⟩ :
      ∃ start : Text, '\n' ∉ start ∧ lineBreak.text = start ++ ['\n'] := by
    cases lineBreak with
    | lineFeed => exact ⟨[], by decide, rfl⟩
    | returnLineFeed => exact ⟨['\r'], by decide, rfl⟩
  have left : '\n' ∉ first ++ start := by simp [free, clear]
  have right : '\n' ∉ second ++ start := by simp [free', clear]
  have cut : (first ++ start) ++ '\n' :: rest = (second ++ start) ++ '\n' :: rest' := by
    simpa [whole] using same
  obtain ⟨before, after⟩ := eq_of_append_cons left right cut
  exact ⟨List.append_cancel_right before, after⟩

/-- A header and lines without line feeds are known from their text. -/
theorem eq_of_below {lineBreak : LineBreak} {first second : Text} {lines lines' : List Text}
    (free : ∀ line ∈ first :: lines, '\n' ∉ line)
    (free' : ∀ line ∈ second :: lines', '\n' ∉ line)
    (same : first ++ lineBreak.below lines = second ++ lineBreak.below lines') :
    first = second ∧ lines = lines' := by
  have present := lineFeed_mem_text lineBreak
  induction lines generalizing first second lines' with
  | nil =>
      cases lines' with
      | nil => exact ⟨by simpa [LineBreak.below] using same, rfl⟩
      | cons line' lines' =>
          refine absurd ?_ (free first (by simp))
          have whole : first = second ++ lineBreak.below (line' :: lines') := by
            simpa [LineBreak.below] using same
          rw [whole]
          simp [present]
  | cons line lines ih =>
      cases lines' with
      | nil =>
          refine absurd ?_ (free' second (by simp))
          have whole : first ++ lineBreak.below (line :: lines) = second := by
            simpa [LineBreak.below] using same
          rw [← whole]
          simp [present]
      | cons line' lines' =>
          rw [List.forall_mem_cons] at free free'
          rw [LineBreak.below_cons, LineBreak.below_cons] at same
          obtain ⟨rfl, below⟩ := eq_of_lineBreak free.1 free'.1 same
          obtain ⟨rfl, rfl⟩ := ih free.2 free'.2 below
          exact ⟨rfl, rfl⟩

/-! ### The lines of a clause -/

theorem itemLines_ne_nil (items : List Text) : options.itemLines items ≠ [] := by
  cases items using Options.itemLines.induct <;> simp [Options.itemLines]

/-- Of the lines of a clause, each that is not the last ends in a comma. -/
theorem getLast?_of_itemLines {items before after : List Text} {line : Text}
    (whole : options.itemLines items = before ++ line :: after) (more : after ≠ []) :
    line.getLast? = some ',' := by
  induction items using Options.itemLines.induct generalizing before with
  | case1 =>
      cases before <;> simp_all [Options.itemLines]
  | case2 item =>
      cases before <;> simp_all [Options.itemLines]
  | case3 item next items ih =>
      rw [Options.itemLines] at whole
      cases before with
      | nil =>
          obtain ⟨rfl, -⟩ := List.cons.inj whole
          simp
      | cons first before =>
          obtain ⟨-, rest⟩ := List.cons.inj whole
          exact ih rest

/-- A clause with items is known from its lines. -/
theorem cons_eq_of_itemLines {item item' : Text} {items items' : List Text}
    (same : options.itemLines (item :: items) = options.itemLines (item' :: items')) :
    item :: items = item' :: items' := by
  induction items generalizing item item' items' with
  | nil =>
      cases items' with
      | nil => simpa [Options.itemLines] using same
      | cons next' items' =>
          obtain ⟨-, rest⟩ := List.cons.inj same
          exact absurd rest.symm (itemLines_ne_nil _)
  | cons next items ih =>
      cases items' with
      | nil =>
          obtain ⟨-, rest⟩ := List.cons.inj same
          exact absurd rest (itemLines_ne_nil _)
      | cons next' items' =>
          obtain ⟨line, rest⟩ := List.cons.inj same
          have head : item = item' := by simpa using line
          rw [head, ih rest]

/-- Only an item without characters could be taken for no item. -/
theorem eq_of_itemLines {items items' : List Text} (visible : items ≠ [[]])
    (visible' : items' ≠ [[]]) (same : options.itemLines items = options.itemLines items') :
    items = items' := by
  have blank {item : Text} {items : List Text}
      (same : options.itemLines [] = options.itemLines (item :: items)) : item :: items = [[]] := by
    apply cons_eq_of_itemLines
    simpa [Options.itemLines] using same.symm
  cases items with
  | nil =>
      cases items' with
      | nil => rfl
      | cons item' items' => exact absurd (blank same) visible'
  | cons item items =>
      cases items' with
      | nil => exact absurd (blank same.symm) visible
      | cons item' items' => exact cons_eq_of_itemLines same

/-- Nothing but spaces and commas is added to the items. -/
theorem mem_of_mem_itemLines {items : List Text} {line : Text} {c : Char}
    (present : line ∈ options.itemLines items) (inside : c ∈ line) :
    c = ' ' ∨ c = ',' ∨ ∃ item ∈ items, c ∈ item := by
  have space (h : c ∈ options.margin) : c = ' ' := (List.mem_replicate.mp h).2
  induction items using Options.itemLines.induct with
  | case1 =>
      rw [Options.itemLines, List.mem_singleton] at present
      exact .inl (space (present ▸ inside))
  | case2 item =>
      rw [Options.itemLines, List.mem_singleton] at present
      rw [present, List.mem_append] at inside
      rcases inside with inMargin | inItem
      · exact .inl (space inMargin)
      · exact .inr (.inr ⟨item, by simp, inItem⟩)
  | case3 item next items ih =>
      rw [Options.itemLines, List.mem_cons] at present
      rcases present with rfl | later
      · rw [List.mem_append, List.mem_append, List.mem_singleton] at inside
        rcases inside with (inMargin | inItem) | comma
        · exact .inl (space inMargin)
        · exact .inr (.inr ⟨item, by simp, inItem⟩)
        · exact .inr (.inl comma)
      · rcases ih later with isSpace | isComma | ⟨other, among, inItem⟩
        · exact .inl isSpace
        · exact .inr (.inl isComma)
        · exact .inr (.inr ⟨other, List.mem_cons_of_mem _ among, inItem⟩)

/-! ### Conditions -/

theorem equality_eq (condition : Condition) :
    equality condition =
      ((shown condition).1 ++ [' ', '=', ' ']) ++ '\'' :: ((shown condition).2 ++ ['\'']) := by
  simp [equality, shown]

/-- The first quote in an equality is the one before the value. -/
theorem shown_eq_of_equality {condition condition' : Condition}
    (free : '\'' ∉ (shown condition).1) (free' : '\'' ∉ (shown condition').1)
    (same : equality condition = equality condition') : shown condition = shown condition' := by
  rw [equality_eq, equality_eq] at same
  have left : '\'' ∉ (shown condition).1 ++ [' ', '=', ' '] := by simp [free]
  have right : '\'' ∉ (shown condition').1 ++ [' ', '=', ' '] := by simp [free']
  obtain ⟨column, value⟩ := eq_of_append_cons left right same
  exact Prod.ext (List.append_cancel_right column) (List.append_cancel_right value)

/-- The clause for conditions has a header and a line with a quote. -/
theorem whereLines_cases (conditions : List Condition) :
    options.whereLines conditions = [] ∨
      ∃ line lines, options.whereLines conditions = whereLine :: line :: lines ∧ '\'' ∈ line := by
  match conditions with
  | [] => exact .inl rfl
  | [condition] =>
      exact .inr ⟨_, [], rfl, by simp [equality_eq]⟩
  | condition :: next :: conditions =>
      exact .inr ⟨_, _, rfl, by simp [equality_eq]⟩

theorem map_shown_eq_of_whereLines {conditions conditions' : List Condition}
    (free : ∀ condition ∈ conditions, '\'' ∉ (shown condition).1)
    (free' : ∀ condition ∈ conditions', '\'' ∉ (shown condition).1)
    (same : options.whereLines conditions = options.whereLines conditions') :
    conditions.map shown = conditions'.map shown := by
  have equalities : conditions.map equality = conditions'.map equality := by
    cases conditions with
    | nil =>
        cases conditions' with
        | nil => rfl
        | cons condition' conditions' => exact nomatch same
    | cons condition conditions =>
        cases conditions' with
        | nil => exact nomatch same
        | cons condition' conditions' => exact cons_eq_of_itemLines (List.cons.inj same).2
  clear same
  induction conditions generalizing conditions' with
  | nil =>
      rw [List.map_nil, eq_comm, List.map_eq_nil_iff] at equalities
      rw [equalities, List.map_nil]
  | cons condition conditions ih =>
      cases conditions' with
      | nil => exact nomatch equalities
      | cons condition' conditions' =>
          rw [List.forall_mem_cons] at free free'
          obtain ⟨first, rest⟩ := List.cons.inj equalities
          rw [List.map_cons, List.map_cons, shown_eq_of_equality free.1 free'.1 first,
            ih free.2 free'.2 rest]

/-! ### The lines of a query determine its parts -/

/-- The columns of a query cannot have more lines in another reading of its lines. -/
theorem extra_eq_nil {columns extra : List Text} {name name' : Text}
    {terms terms' : List Condition} (longer : ∃ before, options.itemLines columns = before ++ extra)
    (same : fromLine :: name :: options.whereLines terms =
      extra ++ fromLine :: name' :: options.whereLines terms') : extra = [] := by
  obtain ⟨before, whole⟩ := longer
  cases extra with
  | nil => rfl
  | cons line extra =>
      exfalso
      obtain ⟨rfl, rest⟩ := List.cons.inj same
      cases extra with
      | cons next extra =>
          have comma := getLast?_of_itemLines whole (List.cons_ne_nil next extra)
          exact absurd comma (by decide +kernel)
      | nil =>
          obtain ⟨-, later⟩ := List.cons.inj rest
          rcases @whereLines_cases options terms with none | ⟨line, lines, clause, quote⟩
          · exact nomatch none.symm.trans later
          · rw [clause] at later
            obtain ⟨-, items⟩ := List.cons.inj later
            rcases @whereLines_cases options terms' with none' | ⟨_, _, clause', -⟩
            · exact nomatch items.trans none'
            · rw [clause'] at items
              obtain ⟨rfl, -⟩ := List.cons.inj items
              exact absurd quote (by decide +kernel)

theorem eq_of_bodyLines {entity entity' : Entity}
    (same : options.bodyLines entity = options.bodyLines entity') :
    options.itemLines entity.attributes = options.itemLines entity'.attributes ∧
      entity.name = entity'.name ∧
      options.whereLines (conditions entity) = options.whereLines (conditions entity') := by
  have tails {lines : List Text} (columns : options.itemLines entity.attributes = lines)
      (columns' : options.itemLines entity'.attributes = lines) :
      entity.name = entity'.name ∧
        options.whereLines (conditions entity) = options.whereLines (conditions entity') := by
    rw [Options.bodyLines, Options.bodyLines, columns, columns'] at same
    simpa using List.append_cancel_left same
  rcases List.append_eq_append_iff.mp same with ⟨extra, longer, rest⟩ | ⟨extra, longer, rest⟩
  · obtain rfl := extra_eq_nil ⟨_, longer⟩ rest
    rw [List.append_nil] at longer
    exact ⟨longer.symm, tails rfl longer⟩
  · obtain rfl := extra_eq_nil ⟨_, longer⟩ rest
    rw [List.append_nil] at longer
    exact ⟨longer, tails longer rfl⟩

/-! ### A query determines what it shows -/

/-- The header of a query is made of letters, digits and spaces. -/
theorem mark_notMem_header {mark : Char} (visible : mark ≠ ' ') (isMark : mark.isAlphanum = false)
    (rowLimit : UInt32) : mark ∉ header rowLimit := by
  have word {text : Text} (plain : text.all (fun c => c == ' ' || c.isAlphanum) = true) :
      mark ∉ text := by
    intro inside
    simpa [visible, isMark] using List.all_eq_true.mp plain mark inside
  have digits : mark ∉ decimal rowLimit.toNat := fun inside =>
    Bool.false_ne_true (isMark.symm.trans ((isNumeral_decimal rowLimit.toNat).isAlphanum mark inside))
  unfold header
  split
  · exact word (by decide +kernel)
  · exact List.not_mem_append (word (by decide +kernel)) digits

theorem not_mem_header (rowLimit : UInt32) : '\n' ∉ header rowLimit :=
  mark_notMem_header (by decide) (by decide) rowLimit

theorem decimal_injective : Function.Injective decimal := by
  intro first second same
  have read := readUnsigned_decimal (Nat.le_max_left first second)
  rw [same, readUnsigned_decimal (Nat.le_max_right first second)] at read
  exact (Except.ok.inj read).symm

theorem header_injective : Function.Injective header := by
  intro first second same
  unfold header at same
  split at same <;> split at same
  · next zero zero' => rw [zero, zero']
  · next => simp at same
  · next => simp at same
  · next => exact UInt32.toNat_inj.mp (decimal_injective (List.append_cancel_left same))

end

/-- A request whose query can be read back. Its names and values hold no line feed, the
columns of its conditions no quote, and its only column is not the empty one. -/
structure Legible (request : Request) : Prop where
  name : '\n' ∉ request.entity.name
  columns : ∀ column ∈ request.entity.attributes, '\n' ∉ column
  terms : ∀ condition ∈ conditions request.entity,
    '\n' ∉ (shown condition).1 ∧ '\n' ∉ (shown condition).2
  quotes : ∀ condition ∈ conditions request.entity, '\'' ∉ (shown condition).1
  visible : request.entity.attributes ≠ [[]]

namespace Legible

variable {request : Request}

theorem not_mem_bodyLines (legible : Legible request) (options : Options) :
    ∀ line ∈ options.bodyLines request.entity, '\n' ∉ line := by
  have items {lines : List Text} (free : ∀ item ∈ lines, '\n' ∉ item) :
      ∀ line ∈ options.itemLines lines, '\n' ∉ line := by
    intro line present inside
    rcases mem_of_mem_itemLines present inside with space | comma | ⟨item, among, inItem⟩
    · exact absurd space (by decide)
    · exact absurd comma (by decide)
    · exact free item among inItem
  have margin : '\n' ∉ options.margin := by simp [Options.margin]
  unfold Options.bodyLines
  simp only [List.forall_mem_append, List.forall_mem_cons]
  refine ⟨items legible.columns, by decide +kernel, by simp [margin, legible.name], ?_⟩
  have terms := legible.terms
  cases given : conditions request.entity with
  | nil => exact nofun
  | cons condition conditions =>
      rw [given] at terms
      rw [Options.whereLines, List.forall_mem_cons]
      refine ⟨by decide +kernel, items ?_⟩
      rw [← List.map_cons, List.forall_mem_map]
      intro other among
      simp [equality_eq, terms other among]

end Legible

/-- Requests with the same query have the same row limit, name and columns, and the same
columns and values in their conditions, in order. -/
theorem shown_eq_of_render_eq (options : Options) {first second : Request}
    (legible : Legible first) (legible' : Legible second)
    (same : render options first = render options second) :
    first.rowLimit = second.rowLimit ∧ first.entity.name = second.entity.name ∧
      first.entity.attributes = second.entity.attributes ∧
      (conditions first.entity).map shown = (conditions second.entity).map shown := by
  rw [render_eq, render_eq] at same
  have free : ∀ line ∈ header first.rowLimit :: options.bodyLines first.entity, '\n' ∉ line :=
    List.forall_mem_cons.mpr ⟨not_mem_header _, legible.not_mem_bodyLines options⟩
  have free' : ∀ line ∈ header second.rowLimit :: options.bodyLines second.entity, '\n' ∉ line :=
    List.forall_mem_cons.mpr ⟨not_mem_header _, legible'.not_mem_bodyLines options⟩
  obtain ⟨headers, bodies⟩ := eq_of_below free free' same
  obtain ⟨columns, name, terms⟩ := eq_of_bodyLines bodies
  exact ⟨header_injective headers, name, eq_of_itemLines legible.visible legible'.visible columns,
    map_shown_eq_of_whereLines legible.quotes legible'.quotes terms⟩

/-- Without an indent, with keywords and commas as names and a quote in a value. -/
theorem shown_eq_of_render_eq_keywords :
    let options : Options := ⟨.returnLineFeed, 0⟩
    let columns : List Text := ["FROM", "WHERE,", " "]
    let first : Request :=
      ⟨7, true, ⟨"FROM", columns, some ⟨[⟨none, some "lt", some "a' = '"⟩]⟩, none, none⟩⟩
    let second : Request :=
      ⟨7, false, ⟨"FROM", columns, some ⟨[⟨some [], none, some "a' = '"⟩]⟩, some [], some []⟩⟩
    Legible first ∧ Legible second ∧ render options first = render options second ∧
      first.rowLimit = second.rowLimit ∧ first.entity.name = second.entity.name ∧
      first.entity.attributes = second.entity.attributes ∧
      (conditions first.entity).map shown = (conditions second.entity).map shown := by
  intro options columns first second
  have legible : Legible first := by
    constructor <;> decide +kernel
  have legible' : Legible second := by
    constructor <;> decide +kernel
  have same : render options first = render options second := by decide +kernel
  exact ⟨legible, legible', same, shown_eq_of_render_eq options legible legible' same⟩

end Sql

end FetchQuery
