import FetchQuery.Request.Basic

/-!
# Query text

A request is written as a `SELECT` query: a clause header on a line of its own, and below
it, indented, the items of the clause, separated by commas at the ends of lines. There is
always a line for the columns, even if there are none. The `WHERE` clause is there if the
filter has conditions.

Only the entity of the request itself is written. Every condition is written as an
equality, and an absent text is written as the empty one. Values are written between
single quotes as they are.
-/

namespace FetchQuery

namespace Sql

/-- The two ways to end a line. -/
inductive LineBreak where
  | lineFeed
  | returnLineFeed
  deriving DecidableEq, Repr

namespace LineBreak

/-- The characters that end a line. -/
def text : LineBreak → Text
  | lineFeed => ['\n']
  | returnLineFeed => ['\r', '\n']

/-- The way to end a line where nothing else is asked for. -/
def native : LineBreak :=
  lineFeed

end LineBreak

/-- How a query is laid out. -/
structure Options where
  lineBreak : LineBreak := LineBreak.native
  /-- The number of spaces in front of an item. -/
  indent : Nat := 4
  deriving DecidableEq, Repr

namespace Options

/-- What starts the line of an item. Memory has no limit here: any number of spaces is written, also
one from `2 ^ 63` on, which no memory could hold. -/
def itemStart (options : Options) : Text :=
  options.lineBreak.text ++ List.replicate options.indent ' '

/-- The items of a clause, one a line. -/
def items (options : Options) (items : List Text) : Text :=
  options.itemStart ++ List.intercalate (',' :: options.itemStart) items

end Options

/-- The first line of a query. It ends in a space if there is no row limit. -/
def header (rowLimit : UInt32) : Text :=
  if rowLimit = 0 then "SELECT " else "SELECT TOP " ++ Text.decimal rowLimit.toNat

/-- A condition as an equality. -/
def equality (condition : Condition) : Text :=
  condition.column.getD [] ++ " = '" ++ condition.value.getD [] ++ "'"

/-- The conditions of an entity, none if it has no filter. -/
def conditions (entity : Entity) : List Condition :=
  match entity.filter with
  | none => []
  | some filter => filter.conditions

/-- The clause for some conditions, nothing if there are none. -/
def whereClause (options : Options) (conditions : List Condition) : Text :=
  if conditions.isEmpty then []
  else options.lineBreak.text ++ "WHERE" ++ options.items (conditions.map equality)

/-- The query for a request. -/
def render (options : Options) (request : Request) : Text :=
  let entity := request.entity
  header request.rowLimit ++ options.items entity.attributes ++
    options.lineBreak.text ++ "FROM" ++ options.items [entity.name] ++
    whereClause options (conditions entity)

end Sql

end FetchQuery
