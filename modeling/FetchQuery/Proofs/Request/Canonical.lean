import FetchQuery.Proofs.Request.Reading
import FetchQuery.Proofs.Text.Numeral
import FetchQuery.Proofs.Xml.Element

/-!
# What a document can state

A document states no empty list: where there are no conditions, links or orders, the
request says nothing of them. It also states no row limit above the bound. This holds of
every request that is read (`Request.canonical_of_ofElement`), by induction on the
elements below the entity.
-/

namespace FetchQuery

open Text Xml Outcome

section

variable {α : Type}

theorem someUnlessEmpty_ne (items : List α) : someUnlessEmpty items ≠ some [] := by
  cases items <;> simp [someUnlessEmpty]

@[simp] theorem getD_someUnlessEmpty (items : List α) :
    (someUnlessEmpty items).getD [] = items := by
  cases items <;> rfl

theorem someUnlessEmpty_getD {items : Option (List α)} (h : items ≠ some []) :
    someUnlessEmpty (items.getD []) = items := by
  match items with
  | none => rfl
  | some [] => exact absurd rfl h
  | some (_ :: _) => rfl

end

/-- The links of an entity that is read are those that its element holds. -/
theorem Entity.forall₂_links {element : Element} {entity : Entity}
    (h : Entity.ofElement element = .ok entity) :
    List.Forall₂ (fun child link => Link.ofElement child = .ok link)
      (element.childrenNamed "link-entity") entity.links := by
  obtain ⟨-, -, ⟨links, hlinks, linked⟩, -, -⟩ := Entity.ofElement_eq_ok_iff.mp h
  rw [Entity.links, linked, getD_someUnlessEmpty]
  exact hlinks

/-- What passes from the linked entities to the entity holds of every entity. -/
@[elab_as_elim]
theorem Entity.induction {motive : Entity → Prop}
    (step : ∀ entity, (∀ link ∈ entity.links, motive link.entity) → motive entity) :
    ∀ entity, motive entity
  | ⟨_, _, _, none, _⟩ => step _ nofun
  | ⟨_, _, _, some links, _⟩ => step _ fun link (_present : link ∈ links) =>
      Entity.induction step link.entity
decreasing_by
  have below := List.sizeOf_lt_of_mem _present
  obtain ⟨join, entity⟩ := link
  simp only [Link.mk.sizeOf_spec] at below
  simp only [Entity.mk.sizeOf_spec, Option.some.sizeOf_spec]
  omega

/-- An entity that holds no empty list. -/
structure Entity.NoEmptyList (entity : Entity) : Prop where
  filter : entity.filter ≠ some ⟨[]⟩
  linked : entity.linked ≠ some []
  orders : entity.orders ≠ some []

/-- An entity without empty lists at any depth. -/
def Entity.Canonical (entity : Entity) : Prop :=
  ∀ part ∈ entity.walk, part.NoEmptyList

/-- A request that a document can state. -/
structure Request.Canonical (request : Request) : Prop where
  rowLimit : request.rowLimit.toNat ≤ rowLimitBound
  entity : request.entity.Canonical

theorem Entity.canonical_iff {entity : Entity} :
    entity.Canonical ↔
      entity.NoEmptyList ∧ ∀ link ∈ entity.links, link.entity.Canonical := by
  simp only [Entity.Canonical]
  rw [Entity.walk_eq, List.forall_mem_cons]
  simp only [List.mem_flatMap]
  constructor
  · rintro ⟨own, below⟩
    exact ⟨own, fun link hlink part hpart => below part ⟨link, hlink, hpart⟩⟩
  · rintro ⟨own, below⟩
    exact ⟨own, fun part ⟨link, hlink, hpart⟩ => below link hlink part hpart⟩

/-! ### Requests that are read -/

theorem Filter.ofElement?_ne (element : Element) : Filter.ofElement? element ≠ some ⟨[]⟩ := by
  unfold Filter.ofElement?
  split
  · exact nofun
  · next nonempty => simpa using nonempty

/-- No entity that is read holds an empty list. -/
theorem Entity.canonical_of_ofElement {element : Element} {entity : Entity}
    (h : Entity.ofElement element = .ok entity) : entity.Canonical := by
  induction element using Element.induction generalizing entity with
  | step element ih =>
      obtain ⟨-, -, ⟨links, -, linked⟩, filter, orders⟩ := Entity.ofElement_eq_ok_iff.mp h
      rw [Entity.canonical_iff]
      constructor
      · constructor
        · rw [filter]
          cases element.filter? with
          | none => exact nofun
          | some first => exact Filter.ofElement?_ne first
        · rw [linked]
          exact someUnlessEmpty_ne links
        · rw [orders]
          exact someUnlessEmpty_ne _
      · intro link hlink
        obtain ⟨child, hchild, hread⟩ := exists_of_mem_forall₂ (Entity.forall₂_links h) hlink
        exact ih child (List.mem_of_mem_filter hchild) (Link.ofElement_eq_ok_iff.mp hread).1

/-- No row limit that is read is above the bound. -/
theorem readRowLimit_le (value : Option Text) : (readRowLimit value).toNat ≤ rowLimitBound := by
  unfold readRowLimit
  split
  · exact Nat.zero_le _
  · split
    · next limit read =>
      have small := ((readNumeral_eq_ok_iff (by decide)).mp read).2
      exact (Nat.mod_le limit _).trans small
    · exact Nat.zero_le _

/-- Every request that is read is one that a document can state. -/
theorem Request.canonical_of_ofElement {root : Element} {request : Request}
    (h : Request.ofElement root = .ok request) : request.Canonical := by
  obtain ⟨-, ⟨first, -, -, hentity⟩, rowLimit, -⟩ := Request.ofElement_eq_ok_iff.mp h
  constructor
  · rw [rowLimit]
    exact readRowLimit_le _
  · exact Entity.canonical_of_ofElement hentity

end FetchQuery
