import Mathlib.Data.List.Nodup
import FetchQuery.Proofs.Xml.Completion

/-!
# Keys in the tree of a document

A tag in which a key comes again cannot be read. Elements under construction only gain
children that have been read themselves, so no element in the tree of a document has a
key twice (`Element.distinctKeys_of_ofDocument`).
-/

namespace FetchQuery

namespace Xml

open Text Outcome

/-- A tree in which no element has a key twice. -/
inductive Element.DistinctKeys : Element → Prop
  | mk {name : Text} {attributes : List Attribute} {children : List Element}
      (own : (attributes.map Attribute.key).Nodup)
      (below : ∀ child ∈ children, child.DistinctKeys) :
      DistinctKeys ⟨name, attributes, children⟩

theorem Element.DistinctKeys.nodup {element : Element} (h : element.DistinctKeys) :
    (element.attributes.map Attribute.key).Nodup := by
  cases h with
  | mk own below => exact own

theorem Element.DistinctKeys.of_mem {element child : Element} (h : element.DistinctKeys)
    (present : child ∈ element.children) : child.DistinctKeys := by
  cases h with
  | mk own below => exact below child present

/-! ### Tags -/

theorem checkFresh_eq_ok_iff {keys : Keys} {key : Text} {position : Nat} :
    checkFresh keys key position = .ok () ↔ keys.lookup key = none := by
  unfold checkFresh
  cases keys.lookup key with
  | none => simp
  | some previous => simp

/-- The keys that are read differ from each other and from those that were read before. -/
theorem distinct_of_readAttributes {content text : Text} {keys : Keys}
    {attributes : List Attribute} (h : readAttributes content keys text = .ok attributes) :
    (attributes.map Attribute.key).Nodup ∧
      ∀ pair ∈ attributes, keys.lookup pair.key = none := by
  induction keys, text using readAttributes.induct content generalizing attributes with
  | case1 keys text ended =>
      rw [readAttributes_of_ended ended] at h
      cases h
      exact ⟨.nil, nofun⟩
  | case2 keys text first rest start fault step =>
      rw [readAttributes_of_fault start step] at h
      exact nomatch h
  | case3 keys text first rest start pair after step ih =>
      rw [readAttributes_of_attribute start step, bind_eq_ok_iff] at h
      obtain ⟨others, read, same⟩ := h
      cases same
      obtain ⟨-, -, -, fresh, -, -⟩ := readAttribute_eq_ok_iff.mp step
      obtain ⟨distinct, unseen⟩ := ih read
      -- Keys that come later are looked up among the keys before them, this one included.
      have later : ∀ other ∈ others, other.key ≠ pair.key ∧ keys.lookup other.key = none := by
        intro other present
        have absent := unseen other present
        rw [List.lookup_cons] at absent
        split at absent
        · exact nomatch absent
        · next differs => exact ⟨by simpa using differs, absent⟩
      constructor
      · rw [List.map_cons, List.nodup_cons]
        refine ⟨?_, distinct⟩
        intro again
        obtain ⟨other, present, same⟩ := List.mem_map.mp again
        exact (later other present).1 same
      · rw [List.forall_mem_cons]
        exact ⟨checkFresh_eq_ok_iff.mp fresh, fun other present => (later other present).2⟩

theorem Element.distinctKeys_of_ofTag {content : Text} {element : Element}
    (h : Element.ofTag content = .ok element) : element.DistinctKeys := by
  obtain ⟨attributes, read, same⟩ := bind_eq_ok_iff.mp h
  cases same
  exact .mk (distinct_of_readAttributes read).1 nofun

/-! ### Trees -/

namespace Growth

variable {growth grown : Growth} {event : Event} {element tree : Element}

/-- A growth of which no element has a key twice. -/
structure DistinctKeys (growth : Growth) : Prop where
  unfinished : ∀ element ∈ growth.unfinished, element.DistinctKeys
  root : ∀ root ∈ growth.root?, root.DistinctKeys

theorem DistinctKeys.attach (inv : growth.DistinctKeys) (helement : element.DistinctKeys)
    (h : growth.attach element = .ok grown) : grown.DistinctKeys := by
  rcases attach_cases h with ⟨parent, outer, inside, rfl⟩ | ⟨outside, -, rfl⟩
  · have parts := inv.unfinished
    rw [inside, List.forall_mem_cons] at parts
    obtain ⟨hparent, houter⟩ := parts
    refine ⟨List.forall_mem_cons.mpr ⟨?_, houter⟩, inv.root⟩
    apply Element.DistinctKeys.mk hparent.nodup
    rw [List.forall_mem_append, List.forall_mem_singleton]
    exact ⟨fun child => hparent.of_mem, helement⟩
  · constructor
    · exact inv.unfinished
    · rintro root ⟨⟩
      exact helement

/-- Every piece keeps the keys distinct. -/
theorem DistinctKeys.takes (inv : growth.DistinctKeys) (h : growth.Takes event grown) :
    grown.DistinctKeys := by
  rcases h.cases with ⟨content, element, -, read, rfl⟩ | ⟨content, element, -, read, attached⟩ |
    ⟨content, names, element, outer, -, -, inside, attached⟩ | ⟨-, rfl⟩
  · have helement := Element.distinctKeys_of_ofTag read
    exact ⟨List.forall_mem_cons.mpr ⟨helement, inv.unfinished⟩, inv.root⟩
  · exact inv.attach (Element.distinctKeys_of_ofTag read) attached
  · have parts := inv.unfinished
    rw [inside, List.forall_mem_cons] at parts
    have inner : DistinctKeys ⟨names, outer, growth.root?⟩ := ⟨parts.2, inv.root⟩
    exact inner.attach parts.1 attached
  · exact inv

end Growth

/-- What a growth with distinct keys becomes has distinct keys. -/
theorem Completes.distinctKeys {growth : Growth} {text : Text} {tree : Element}
    (h : Completes growth text tree) (inv : growth.DistinctKeys) : tree.DistinctKeys := by
  induction h with
  | finish _ finished => exact inv.root _ (Growth.root?_of_finish finished)
  | read _ takes _ ih => exact ih (inv.takes takes)

/-- No element in the tree of a document has a key twice. -/
theorem Element.distinctKeys_of_ofDocument {document : Text} {tree : Element}
    (h : Element.ofDocument document = .ok tree) : tree.DistinctKeys :=
  (treeOf_eq_ok_iff.mp h).distinctKeys ⟨nofun, nofun⟩

end Xml

end FetchQuery
