import FetchQuery.Request.Events
import FetchQuery.Sql.Render

/-!
# From documents to queries

A fetch document is read as a request, and the request is written as a query. There is
either a whole query or a fault. What is told of on the way does not bear on the query.
-/

namespace FetchQuery

/-- The query for a fetch document. -/
def translate (options : Sql.Options) (document : Text) : Except Fault Text := do
  let request ← Request.ofDocument document
  return Sql.render options request

/-- What is told of a request once it has been read: of its query, of the whole, and of each
linked entity, since the query leaves it out. -/
def Request.laterEvents (options : Sql.Options) (request : Request) : List Log.Event :=
  .queryWritten request.entity.name (Sql.render options request).byteLength ::
    .documentTranslated request.entity.name request.entity.walk.length ::
      request.entity.walk.tail.map fun entity => .linkNotWritten entity.name

/-- What is told of while a document is translated. -/
def translationEvents (options : Sql.Options) (document : Text) : List Log.Event :=
  match Xml.Element.ofDocument document with
  | .error _ => []
  | .ok root =>
      Request.events root ++ told (Request.laterEvents options) (Request.ofElement root)

end FetchQuery
