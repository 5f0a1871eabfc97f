import FetchQuery.Log
import FetchQuery.Request.Read

/-!
# What is told of while a request is read

An entity is told of when it has been read, so after the entities that are linked to it, and a
request when it has been read as a whole. A fault ends the reading; the entities that were read
before it have been told of by then.
-/

namespace FetchQuery

open Xml

/-- The event that an entity has been read. -/
def Entity.event (entity : Entity) : Log.Event :=
  .entityRead entity.name entity.attributes.length entity.links.length

/-- The event that a request has been read. -/
def Request.event (request : Request) : Log.Event :=
  .requestRead request.entity.name request.rowLimit request.noLock

/-- What is told of a value. Nothing is told of a fault. -/
def told {α : Type} (events : α → List Log.Event) : Except Fault α → List Log.Event
  | .ok value => events value
  | .error _ => []

mutual

/-- What is told of while an element is read as an entity. -/
def Entity.events : Element → List Log.Event
  | ⟨tag, keys, children⟩ =>
      let element : Element := ⟨tag, keys, children⟩
      match requiredName element, (element.childrenNamed "attribute").mapM requiredName with
      | .ok _, .ok _ =>
          Link.events children ++ told (fun entity => [entity.event]) (Entity.ofElement element)
      | _, _ => []

/-- What is told of while the links among some elements are read, up to the first fault. -/
def Link.events : List Element → List Log.Event
  | [] => []
  | child :: rest =>
      if child.hasTag "link-entity" then
        Entity.events child ++ told (fun _ => Link.events rest) (Entity.ofElement child)
      else Link.events rest

end

/-- What is told of while the root of a document is read as a request. -/
def Request.events (root : Element) : List Log.Event :=
  if root.hasTag "fetch" then
    match root.children with
    | [] => []
    | first :: _ =>
        if first.hasTag "entity" then
          Entity.events first ++ told (fun request => [request.event]) (Request.ofElement root)
        else []
  else []

end FetchQuery
