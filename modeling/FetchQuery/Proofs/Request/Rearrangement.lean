import Mathlib.Data.List.Perm.Basic
import Mathlib.Logic.Relation
import FetchQuery.Proofs.Request.Document
import FetchQuery.Proofs.Request.View

/-!
# Documents that state the same request

Many changes of a document make no difference to the format: the order of attributes,
attributes and children that are not read, how children of different roles are
interleaved, and the names of conditions. Such a change at any place of the tree leaves
the view of the root as it is (`Rearranges.view_eq`), also where keys are repeated on the
way. So two documents whose trees are related by changes have the same outcome.
-/

namespace FetchQuery

open Text Xml

namespace Role

/-- A child behind some others is read in a role, given the role of its parent. Of the
filters of an entity only the first is read. -/
inductive Reads (before : List Element) (child : Element) : Role → Role → Prop
  | entity (first : before = []) : Reads before child fetch entity
  | tagged {role part : Role} {tag : Text} (source : role.IsSource) (htag : part.tag? = some tag)
      (tagged : child.hasTag tag = true)
      (first : part = filter → ∀ earlier ∈ before, ¬ earlier.hasTag tag = true) :
      Reads before child role part
  | condition : Reads before child filter condition

end Role

/-- A change of an element that makes no difference to what it is read as in a role. -/
inductive Rearranges : Role → Element → Element → Prop
  /-- Attributes in another order. -/
  | reorder {role : Role} {name : Text} {attributes attributes' : List Attribute}
      {children : List Element} (perm : attributes.Perm attributes') :
      Rearranges role ⟨name, attributes, children⟩ ⟨name, attributes', children⟩
  /-- One more attribute that is not read. -/
  | addAttribute {role : Role} {name : Text} {before after : List Attribute} {pair : Attribute}
      {children : List Element} (unread : pair.key ∉ role.keys) :
      Rearranges role ⟨name, before ++ after, children⟩ ⟨name, before ++ pair :: after, children⟩
  /-- Children of an entity or link in another order, those of each tag that may come more
  than once in the same order, and with the same first filter. -/
  | permute {role : Role} {name : Text} {attributes : List Attribute}
      {children children' : List Element} (source : role.IsSource) (perm : children.Perm children')
      (same : ∀ tag ∈ (["attribute", "link-entity", "order"] : List Text),
        (children.filter fun child => child.hasTag tag) =
          children'.filter fun child => child.hasTag tag)
      (filter : (children.find? fun child => child.hasTag "filter") =
        children'.find? fun child => child.hasTag "filter") :
      Rearranges role ⟨name, attributes, children⟩ ⟨name, attributes, children'⟩
  /-- One more child that is not read. -/
  | addChild {role : Role} {name : Text} {attributes : List Attribute}
      {before after : List Element} {child : Element}
      (unread : ∀ part, ¬ role.Reads before child part) :
      Rearranges role ⟨name, attributes, before ++ after⟩
        ⟨name, attributes, before ++ child :: after⟩
  /-- A condition under another name. -/
  | rename {name name' : Text} {attributes : List Attribute} {children : List Element} :
      Rearranges .condition ⟨name, attributes, children⟩ ⟨name', attributes, children⟩
  /-- A change of a child that is read. -/
  | inside {role part : Role} {name : Text} {attributes : List Attribute}
      {before after : List Element} {child child' : Element} (reads : role.Reads before child part)
      (change : Rearranges part child child') :
      Rearranges role ⟨name, attributes, before ++ child :: after⟩
        ⟨name, attributes, before ++ child' :: after⟩

/-- Roots that are reached from each other by changes and their reversals. -/
def Equivalent : Element → Element → Prop :=
  Relation.EqvGen (Rearranges .fetch)

/-! ### Changes and the children that are read -/

namespace Role

variable {role part part' : Role} {tag tag' : Text} {before after : List Element}
  {child child' : Element}

theorem sameLetters_of_hasTag (h : child.hasTag tag = true) (h' : child.hasTag tag' = true) :
    sameLetters tag tag' = true := by
  rw [Element.hasTag, sameLetters_iff] at h h'
  rw [sameLetters_iff, ← h, h']

/-- A child that is not read makes no difference to the children that are. -/
theorem parts_insert (unread : ∀ part, ¬ role.Reads before child part) (part : Role) :
    role.parts part (before ++ child :: after) = role.parts part (before ++ after) := by
  have insert (source : role.IsSource) :
      sourceParts part (before ++ child :: after) = sourceParts part (before ++ after) := by
    unfold sourceParts
    cases htag : part.tag? with
    | none => rfl
    | some tag =>
        simp only [List.filter_append]
        by_cases tagged : child.hasTag tag = true
        -- Only a filter can be left unread, and only because of a filter before it.
        · have late : part = filter ∧ ∃ earlier ∈ before, earlier.hasTag tag = true := by
            by_contra early
            refine unread part (.tagged source htag tagged ?_)
            intro isFilter earlier present another
            exact early ⟨isFilter, earlier, present, another⟩
          obtain ⟨isFilter, earlier, present, another⟩ := late
          have some_before : 1 ≤ (before.filter fun child => child.hasTag tag).length :=
            List.length_pos_of_mem (List.mem_filter.mpr ⟨present, another⟩)
          rw [if_pos isFilter, if_pos isFilter, List.take_append_of_le_length some_before,
            List.take_append_of_le_length some_before]
        · rw [List.filter_cons, if_neg tagged]
  cases role with
  | fetch =>
      cases before with
      | nil => exact absurd (.entity rfl) (unread entity)
      | cons first before => cases part <;> rfl
  | entity => exact insert .entity
  | link => exact insert .link
  | filter => exact absurd .condition (unread condition)
  | _ => rfl

/-- A child that is replaced under its name makes a difference only to its own role. -/
theorem map_parts_replace {α : Type} {f : Element → α} (reads : role.Reads before child part)
    (named : part ≠ condition → child.name = child'.name)
    (same : part' = part → f child = f child') :
    (role.parts part' (before ++ child :: after)).map f =
      (role.parts part' (before ++ child' :: after)).map f := by
  cases reads with
  | entity first =>
      subst first
      cases part' with
      | entity => exact congrArg (fun image => [image]) (same rfl)
      | _ => rfl
  | @tagged _ _ tag source htag tagged first =>
      have renamed : part ≠ condition := by
        rintro rfl
        exact nomatch htag
      rw [source.parts_eq]
      unfold sourceParts
      cases htag' : part'.tag? with
      | none => rfl
      | some tag' =>
          have replaced : ((before ++ child :: after).filter fun child => child.hasTag tag').map f =
              ((before ++ child' :: after).filter fun child => child.hasTag tag').map f := by
            have sameTag : child'.hasTag tag' = child.hasTag tag' := by
              rw [Element.hasTag, Element.hasTag, named renamed]
            simp only [List.filter_append, List.filter_cons, List.map_append, sameTag]
            split
            · next tagged' =>
              have sameRole := eq_of_tag? htag' htag (sameLetters_of_hasTag tagged' tagged)
              rw [List.map_cons, List.map_cons, same sameRole]
            · rfl
          dsimp only
          split
          · rw [List.map_take, List.map_take, replaced]
          · exact replaced
  | condition =>
      cases part' with
      | condition => simp only [parts, List.map_append, List.map_cons, same rfl]
      | _ => rfl

end Role

/-! ### Changes leave the view as it is -/

namespace Rearranges

variable {role : Role} {first second : Element}

/-- Only conditions change their names. -/
theorem name_eq (h : Rearranges role first second) (named : role ≠ .condition) :
    first.name = second.name := by
  cases h with
  | rename => exact absurd rfl named
  | _ => rfl

/-- A change at any depth leaves all that is read as it is. -/
theorem view_eq (h : Rearranges role first second) : role.view first = role.view second := by
  induction h with
  | reorder perm => exact Role.view_eq_iff.mpr ⟨rfl, perm.filter _, fun part => rfl⟩
  | @addAttribute role _ before after pair _ unread =>
      have hidden : (before ++ pair :: after).filter (fun pair => decide (pair.key ∈ role.keys)) =
          (before ++ after).filter fun pair => decide (pair.key ∈ role.keys) := by
        rw [List.filter_append, List.filter_append, List.filter_cons,
          if_neg (by simpa using unread)]
      exact Role.view_eq_iff.mpr ⟨rfl, List.Perm.of_eq hidden.symm, fun part => rfl⟩
  | @permute role name attributes children children' source perm same filter =>
      apply Role.view_eq_of_parts
      intro part
      have kept : role.parts part children = role.parts part children' := by
        rw [source.parts_eq]
        cases part with
        | column => exact same _ (by simp)
        | link => exact same _ (by simp)
        | order => exact same _ (by simp)
        | filter =>
            change List.take 1 _ = List.take 1 _
            rw [List.take_one, List.take_one, List.head?_filter, List.head?_filter, filter]
        | _ => rfl
      rw [kept]
  | addChild unread =>
      apply Role.view_eq_of_parts
      intro part
      rw [Role.parts_insert unread]
  | rename => exact Role.view_eq_iff.mpr ⟨rfl, List.Perm.refl _, fun part => rfl⟩
  | inside reads change ih =>
      apply Role.view_eq_of_parts
      intro part
      apply Role.map_parts_replace reads change.name_eq
      rintro rfl
      exact ih

end Rearranges

/-- What is kept by every change is the same for roots that are equivalent. -/
theorem Equivalent.view_eq {first second : Element} (h : Equivalent first second) :
    Role.fetch.view first = Role.fetch.view second := by
  induction h with
  | rel _ _ change => exact change.view_eq
  | refl _ => rfl
  | symm _ _ _ ih => exact ih.symm
  | trans _ _ _ _ _ ih ih' => exact ih.trans ih'

/-- Documents with equivalent trees state the same request or fail with the same fault. -/
theorem Request.ofDocument_eq_of_equivalent {document document' : Text} {tree tree' : Element}
    (h : Element.ofDocument document = .ok tree) (h' : Element.ofDocument document' = .ok tree')
    (equivalent : Equivalent tree tree') :
    Request.ofDocument document = Request.ofDocument document' := by
  have alike : Alike .fetch tree tree' := ⟨equivalent.view_eq,
    Element.distinctKeys_of_ofDocument h, Element.distinctKeys_of_ofDocument h'⟩
  calc Request.ofDocument document
    _ = Request.ofElement tree := ofDocument_of_ok h
    _ = Request.ofElement tree' := ofElement_eq_of_alike alike
    _ = Request.ofDocument document' := (ofDocument_of_ok h').symm

/-- A column behind an order and before it, a key of links on the entity, and an element
behind the entity. -/
theorem Request.ofDocument_eq_of_equivalent_interleaved :
    let document : Text := "<fetch><entity name='a'><order/><attribute name='b'/></entity></fetch>"
    let document' : Text :=
      "<fetch><entity to='c' name='a'><attribute name='b'/><order/></entity><x/></fetch>"
    ∃ tree tree', Element.ofDocument document = .ok tree ∧
      Element.ofDocument document' = .ok tree' ∧ Equivalent tree tree' ∧
      Request.ofDocument document = Request.ofDocument document' := by
  intro document document'
  let column : Element := ⟨"attribute", [⟨"name", "b"⟩], []⟩
  let order : Element := ⟨"order", [], []⟩
  let first : Element := ⟨"entity", [⟨"name", "a"⟩], [order, column]⟩
  let second : Element := ⟨"entity", [⟨"name", "a"⟩], [column, order]⟩
  let third : Element := ⟨"entity", [⟨"to", "c"⟩, ⟨"name", "a"⟩], [column, order]⟩
  let root (children : List Element) : Element := ⟨"fetch", [], children⟩
  have permuted : Rearranges .entity first second :=
    .permute .entity (.swap _ _ _) (by decide +kernel) (by decide +kernel)
  have added : Rearranges .entity second third :=
    @Rearranges.addAttribute .entity "entity" [] _ ⟨"to", "c"⟩ [column, order] (by decide +kernel)
  have inside {entity entity' : Element} (change : Rearranges .entity entity entity') :
      Rearranges .fetch (root ([] ++ [entity])) (root ([] ++ [entity'])) :=
    .inside (.entity rfl) change
  have appended : Rearranges .fetch (root ([third] ++ [])) (root ([third] ++ [⟨"x", [], []⟩])) := by
    apply Rearranges.addChild
    intro part reads
    cases reads with
    | entity first => exact nomatch first
    | tagged source => exact nomatch source
  have equivalent : Equivalent (root [first]) (root [third, ⟨"x", [], []⟩]) :=
    .trans _ _ _ (.rel _ _ (inside permuted))
      (.trans _ _ _ (.rel _ _ (inside added)) (.rel _ _ appended))
  have read : Element.ofDocument document = .ok (root [first]) := by decide +kernel
  have read' : Element.ofDocument document' = .ok (root [third, ⟨"x", [], []⟩]) := by
    decide +kernel
  exact ⟨_, _, read, read', equivalent, ofDocument_eq_of_equivalent read read' equivalent⟩

end FetchQuery
