import FetchQuery.Proofs.Request.Canonical

/-!
# Link trees

A walk lists the entities of a link tree and does not say where they stand. With the number of
direct links of each entity it says so all the same. The numbers up to any entity but the last
announce more entities than have come, and together they announce exactly the entities after the
first (`Announces`). So no walk is the beginning of another one, and the names and numbers in a
walk belong to one link tree only (`Entity.linkTree_of_walk`).
-/

namespace FetchQuery

/-- Numbers of direct links that announce, beside some roots, as many entities as there are
numbers, and each entity before it comes. -/
structure Announces (roots : Nat) (counts : List Nat) : Prop where
  total : counts.sum + roots = counts.length
  ahead : ∀ i < counts.length, i < (counts.take i).sum + roots

namespace Announces

variable {roots roots' : Nat} {counts counts' : List Nat}

theorem nil : Announces 0 [] :=
  ⟨rfl, nofun⟩

theorem append (first : Announces roots counts) (second : Announces roots' counts') :
    Announces (roots + roots') (counts ++ counts') := by
  have total := first.total
  have total' := second.total
  constructor
  · rw [List.sum_append, List.length_append]
    omega
  · intro i inside
    rw [List.length_append] at inside
    rw [List.take_append, List.sum_append]
    by_cases early : i < counts.length
    · have ahead := first.ahead i early
      omega
    · rw [List.take_of_length_le (Nat.le_of_not_lt early)]
      have ahead := second.ahead (i - counts.length) (by omega)
      omega

/-- An entity comes before the entities that it announces. -/
theorem cons (below : Announces roots counts) : Announces 1 (roots :: counts) := by
  have total := below.total
  constructor
  · rw [List.sum_cons, List.length_cons]
    omega
  · intro i inside
    cases i with
    | zero => exact Nat.one_pos
    | succ i =>
        have ahead := below.ahead i (Nat.lt_of_succ_lt_succ inside)
        rw [List.take_succ_cons, List.sum_cons]
        omega

end Announces

namespace Entity

/-- The entity reached by going down from link to link, each given by its index. -/
def descend? (entity : Entity) : List Nat → Option Entity
  | [] => some entity
  | index :: path => entity.links[index]?.bind fun link => link.entity.descend? path

/-- The name of an entity, the number of its direct links and the number of its attributes. -/
def outline (entity : Entity) : Text × Nat × Nat :=
  (entity.name, entity.links.length, entity.attributes.length)

/-- Two link trees have entities at the same places, with the same outlines. -/
def SameOutline (first second : Entity) : Prop :=
  ∀ path, (first.descend? path).map outline = (second.descend? path).map outline

/-! ### Announced entities -/

/-- A walk announces its entities, by induction on the link tree. -/
theorem announces_walk (entity : Entity) :
    Announces 1 (entity.walk.map fun part => part.links.length) := by
  induction entity using Entity.induction with
  | step entity ih =>
      rw [walk_eq, List.map_cons]
      apply Announces.cons
      generalize entity.links = links at ih
      induction links with
      | nil => exact .nil
      | cons link links later =>
          rw [List.forall_mem_cons] at ih
          rw [List.flatMap_cons, List.map_append, List.length_cons, Nat.add_comm]
          exact ih.1.append (later ih.2)

/-! ### Places in a link tree -/

/-- The places in a link tree are its root and the places in the trees of its links. -/
theorem sameOutline_iff {first second : Entity} :
    SameOutline first second ↔ first.outline = second.outline ∧
      List.Forall₂ (fun link link' => SameOutline link.entity link'.entity)
        first.links second.links := by
  constructor
  · intro same
    have root : first.outline = second.outline := Option.some.inj (same [])
    have lengths : first.links.length = second.links.length := congrArg (·.2.1) root
    refine ⟨root, List.forall₂_iff_get.mpr ⟨lengths, fun index inside inside' path => ?_⟩⟩
    simpa [descend?, inside, inside'] using same (index :: path)
  · rintro ⟨root, links⟩ path
    cases path with
    | nil => exact congrArg some root
    | cons index path =>
        obtain ⟨lengths, below⟩ := List.forall₂_iff_get.mp links
        by_cases inside : index < first.links.length
        · have inside' : index < second.links.length := lengths ▸ inside
          simpa [descend?, inside, inside'] using below index inside inside' path
        · have outside' : ¬ index < second.links.length := lengths ▸ inside
          simp [descend?, inside, outside']

/-! ### Walks determine link trees -/

section

variable {links links' : List Link} {rest rest' : List (Text × Nat × Nat)}

/-- As many walks one after another are told apart if each of the first ones is. -/
theorem sameOutlines_of_walks_append
    (single : ∀ link ∈ links, ∀ {rest rest' : List (Text × Nat × Nat)} {second : Entity},
      link.entity.walk.map outline ++ rest = second.walk.map outline ++ rest' →
        SameOutline link.entity second ∧ rest = rest')
    (lengths : links.length = links'.length)
    (same : (links.flatMap fun link => link.entity.walk).map outline ++ rest =
      (links'.flatMap fun link => link.entity.walk).map outline ++ rest') :
    List.Forall₂ (fun link link' => SameOutline link.entity link'.entity) links links' ∧
      rest = rest' := by
  induction links generalizing links' with
  | nil =>
      obtain rfl := List.length_eq_zero_iff.mp lengths.symm
      exact ⟨.nil, same⟩
  | cons link links ih =>
      cases links' with
      | nil => exact nomatch lengths
      | cons link' links' =>
          rw [List.forall_mem_cons] at single
          rw [List.flatMap_cons, List.flatMap_cons, List.map_append, List.map_append,
            List.append_assoc, List.append_assoc] at same
          obtain ⟨first, later⟩ := single.1 same
          obtain ⟨others, rests⟩ := ih single.2 (Nat.succ.inj lengths) later
          exact ⟨.cons first others, rests⟩

/-- A walk ends where the entities that it announces have come, whatever follows. -/
theorem sameOutline_of_walk_append {first second : Entity}
    (same : first.walk.map outline ++ rest = second.walk.map outline ++ rest') :
    SameOutline first second ∧ rest = rest' := by
  induction first using Entity.induction generalizing second rest rest' with
  | step first ih =>
      rw [walk_eq first, walk_eq second, List.map_cons, List.map_cons] at same
      obtain ⟨root, below⟩ := List.cons.inj same
      have lengths : first.links.length = second.links.length := congrArg (·.2.1) root
      obtain ⟨others, rests⟩ := sameOutlines_of_walks_append ih lengths below
      exact ⟨sameOutline_iff.mpr ⟨root, others⟩, rests⟩

/-- Link trees with the same outlines at all places have them in the same order. -/
theorem map_outline_walk_of_sameOutline {first second : Entity} (same : SameOutline first second) :
    first.walk.map outline = second.walk.map outline := by
  induction first using Entity.induction generalizing second with
  | step first ih =>
      obtain ⟨root, others⟩ := sameOutline_iff.mp same
      rw [walk_eq first, walk_eq second, List.map_cons, List.map_cons, root]
      congr 1
      generalize first.links = links, second.links = links' at ih others
      induction others with
      | nil => rfl
      | cons related _ later =>
          rw [List.forall_mem_cons] at ih
          rw [List.flatMap_cons, List.flatMap_cons, List.map_append, List.map_append,
            ih.1 related, later ih.2]

end

/-- In a walk of `n` entities the numbers of direct links have the sum `n - 1`, and the first `i`
of them, short of all, at least the sum `i`. Two entities have the same names and numbers in their
walks exactly if they have them at the same places of their link trees. -/
theorem linkTree_of_walk (entity : Entity) :
    let counts := entity.walk.map fun part => part.links.length
    counts.sum + 1 = counts.length ∧ (∀ i < counts.length, i ≤ (counts.take i).sum) ∧
      ∀ other : Entity,
        entity.walk.map outline = other.walk.map outline ↔ SameOutline entity other := by
  intro counts
  have announced : Announces 1 counts := announces_walk entity
  refine ⟨announced.total, fun i inside => Nat.le_of_lt_succ (announced.ahead i inside), ?_⟩
  intro other
  constructor
  · intro same
    exact (sameOutline_of_walk_append (congrArg (· ++ []) same)).1
  · exact map_outline_walk_of_sameOutline

/-- Links that are not spoken of and no links, other joins and columns of the same number. -/
theorem linkTree_of_walk_otherJoins :
    let leaf (linked : Option (List Link)) : Entity := ⟨"c", [], none, linked, none⟩
    let inner (column : Text) : Entity :=
      ⟨"b", [column], none, some [⟨⟨none, none⟩, leaf none⟩], none⟩
    let first : Entity := ⟨"a", [], none, some [⟨⟨none, none⟩, inner "x"⟩,
      ⟨⟨none, none⟩, leaf (some [])⟩], none⟩
    let second : Entity := ⟨"a", [], some ⟨[]⟩, some [⟨⟨some "f", some "t"⟩, inner "y"⟩,
      ⟨⟨none, none⟩, leaf none⟩], some []⟩
    let counts := first.walk.map fun part => part.links.length
    counts = [2, 1, 0, 0] ∧ first ≠ second ∧ first.walk.map outline = second.walk.map outline ∧
      counts.sum + 1 = counts.length ∧ (∀ i < counts.length, i ≤ (counts.take i).sum) ∧
      SameOutline first second := by
  intro leaf inner first second counts
  have same : first.walk.map outline = second.walk.map outline := by decide +kernel
  obtain ⟨total, ahead, determined⟩ := linkTree_of_walk first
  exact ⟨rfl, by decide +kernel, same, total, ahead, (determined second).mp same⟩

end Entity

end FetchQuery
