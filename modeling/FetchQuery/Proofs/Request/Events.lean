import FetchQuery.Request.Events
import FetchQuery.Proofs.Request.Canonical

/-!
# What is told of while a request is read

The entities of a request are told of, each once, and then the request
(`Request.perm_events`). Where a document states no request, nothing but entities is told of,
so that all events are on the last level (`Request.level_of_mem_events`).
-/

namespace FetchQuery

open Xml Outcome

theorem mem_told_iff {α : Type} {events : α → List Log.Event} {outcome : Except Fault α}
    {event : Log.Event} :
    event ∈ told events outcome ↔ ∃ value, outcome = .ok value ∧ event ∈ events value := by
  cases outcome with
  | ok value => simp [told]
  | error fault => simp [told]

/-! ### Entities that are read -/

theorem Link.events_of_ok {children : List Element} {links : List Link}
    (h : Link.ofChildren children = .ok links) :
    Link.events children =
      (children.filter fun child => child.hasTag "link-entity").flatMap Entity.events := by
  induction children generalizing links with
  | nil => rfl
  | cons child children ih =>
      rw [Link.ofChildren] at h
      rw [Link.events, List.filter_cons]
      split at h
      · next tagged =>
        obtain ⟨entity, read, rest⟩ := bind_eq_ok_iff.mp h
        obtain ⟨more, later, -⟩ := bind_eq_ok_iff.mp rest
        rw [if_pos tagged, if_pos tagged, List.flatMap_cons, read, told, ih later]
      · next other =>
        rw [if_neg other, if_neg other, ih h]

/-- An entity is told of behind what is told of its links. -/
theorem Entity.events_of_ok {element : Element} {entity : Entity}
    (h : Entity.ofElement element = .ok entity) :
    Entity.events element =
      (element.childrenNamed "link-entity").flatMap Entity.events ++ [entity.event] := by
  obtain ⟨name, attributes, ⟨links, hlinks, -⟩, -, -⟩ := Entity.ofElement_eq_ok_iff.mp h
  obtain ⟨tag, keys, children⟩ := element
  have linked : Link.ofChildren children = .ok links := by
    rw [Link.ofChildren_eq]
    exact mapM_eq_ok_iff.mpr hlinks
  simp only [Entity.events, name, mapM_eq_ok_iff.mpr attributes, h, Link.events_of_ok linked]
  rfl

/-- Each entity of a walk is told of once. -/
theorem Entity.perm_events {element : Element} {entity : Entity}
    (h : Entity.ofElement element = .ok entity) :
    (Entity.events element).Perm (entity.walk.map Entity.event) := by
  induction element using Element.induction generalizing entity with
  | step element ih =>
      have below : ((element.childrenNamed "link-entity").flatMap Entity.events).Perm
          (entity.links.flatMap fun link => link.entity.walk.map Entity.event) := by
        apply perm_flatMap_of_forall₂ (Entity.forall₂_links h)
        intro child present link read
        exact ih child (List.mem_of_mem_filter present) (Link.ofElement_eq_ok_iff.mp read).1
      rw [Entity.events_of_ok h, Entity.walk_eq, List.map_cons, List.map_flatMap]
      exact (List.perm_append_singleton _ _).trans (below.cons _)

/-! ### Levels -/

mutual

/-- Whatever comes of an element, nothing but entities is told of. -/
theorem Entity.level_of_mem_events : (element : Element) →
    ∀ event ∈ Entity.events element, event.level = .trace
  | ⟨tag, keys, children⟩ => by
      intro event present
      rw [Entity.events] at present
      split at present
      · rcases List.mem_append.mp present with below | own
        · exact Link.level_of_mem_events children event below
        · obtain ⟨entity, -, same⟩ := mem_told_iff.mp own
          rw [List.mem_singleton.mp same]
          rfl
      · exact absurd present List.not_mem_nil

theorem Link.level_of_mem_events : (children : List Element) →
    ∀ event ∈ Link.events children, event.level = .trace
  | [] => by
      intro event present
      exact absurd present List.not_mem_nil
  | child :: rest => by
      intro event present
      rw [Link.events] at present
      split at present
      · rcases List.mem_append.mp present with inside | later
        · exact Entity.level_of_mem_events child event inside
        · obtain ⟨entity, -, later⟩ := mem_told_iff.mp later
          exact Link.level_of_mem_events rest event later
      · exact Link.level_of_mem_events rest event present

end

/-! ### Requests -/

namespace Request

/-- The entities of a request are told of, and then the request. -/
theorem perm_events {root : Element} {request : Request}
    (h : Request.ofElement root = .ok request) :
    ∃ entities, Request.events root = entities ++ [request.event] ∧
      entities.Perm (request.entity.walk.map Entity.event) := by
  obtain ⟨isFetch, ⟨first, present, isEntity, read⟩, -⟩ := Request.ofElement_eq_ok_iff.mp h
  obtain ⟨rest, children⟩ := List.head?_eq_some_iff.mp present
  refine ⟨Entity.events first, ?_, Entity.perm_events read⟩
  simp only [Request.events, isFetch, children, isEntity, h, told, if_true]

/-- Without a request nothing but entities is told of. -/
theorem level_of_mem_events {root : Element} {fault : Fault}
    (h : Request.ofElement root = .error fault) :
    ∀ event ∈ Request.events root, event.level = .trace := by
  intro event present
  rw [Request.events, h] at present
  split at present
  · split at present
    · exact absurd present List.not_mem_nil
    · split at present
      · rw [told, List.append_nil] at present
        exact Entity.level_of_mem_events _ event present
      · exact absurd present List.not_mem_nil
  · exact absurd present List.not_mem_nil

end Request

end FetchQuery
