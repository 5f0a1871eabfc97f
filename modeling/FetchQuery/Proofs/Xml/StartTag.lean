import Mathlib.Data.List.Forall2
import FetchQuery.Proofs.Xml.Nesting

/-!
# Where elements start

Each element of a document starts with a tag, and the tags that are open there are those of the
elements around it. So the start tags of a document have addresses (`startTags`), which say of an
element and of all elements around it how many elements stand before it in the same element. In a
document with a tree, the start tags in the order of the text are the elements of the tree, each
before the elements in it, at the same addresses (`forall₂_startTags`).

Addresses tell the elements of a tree apart, and say which elements stand directly in another one
(`countP_starts_of_mem`).

## Implementation notes

Trees are taken together with the trees behind them in the same element, so one induction goes
through all elements. Addresses have the innermost element first.
-/

namespace FetchQuery

namespace Xml

open Text Outcome

/-- The name of an element, and the number of elements before it in the same element. -/
structure Standing where
  earlier : Nat
  name : Text
  deriving DecidableEq, Repr

/-- Where an element stands, then where the elements around it stand, innermost first. -/
abbrev Address := List Standing

/-! ### In a document -/

/-- A tag with which an element starts, and the text that was unread when the tag began. -/
structure StartTag where
  place : Text
  attributes : List Attribute
  address : Address
  deriving DecidableEq, Repr

/-- The marks of a piece, with its place. -/
def Located.marks (piece : Located) : List (Text × Mark) :=
  match piece.event.marks with
  | .ok marks => marks.map fun mark => (piece.place, mark)
  | .error _ => []

/-- The start tags among marks that stand in some elements, behind a number of elements there. -/
def startTagsFrom (around : Address) (earlier : Nat) : List (Text × Mark) → List StartTag
  | [] => []
  | (place, .opens name attributes) :: marks =>
      let address := ⟨earlier, name⟩ :: around
      ⟨place, attributes, address⟩ :: startTagsFrom address 0 marks
  | (_, .closes _) :: marks =>
      match around with
      | [] => startTagsFrom [] earlier marks
      | standing :: outer => startTagsFrom outer (standing.earlier + 1) marks

/-- The start tags of a document, in order. -/
def startTags (document : Text) : List StartTag :=
  startTagsFrom [] 0 ((scan document).pieces.flatMap Located.marks)

/-! ### In a tree -/

/-- The elements in trees that stand in some elements, behind a number of elements there. Each one
comes with its address, before the elements in it. -/
def starts (around : Address) (earlier : Nat) : List Element → List (Address × Element)
  | [] => []
  | ⟨name, attributes, children⟩ :: elements =>
      (⟨earlier, name⟩ :: around, ⟨name, attributes, children⟩) ::
        (starts (⟨earlier, name⟩ :: around) 0 children ++ starts around (earlier + 1) elements)

/-- A start tag that stands in the text as an element does in a tree. -/
structure StartTag.Starts (tag : StartTag) (start : Address × Element) : Prop where
  address : tag.address = start.1
  attributes : tag.attributes = start.2.attributes

/-- Where the marks of trees come next, the start tags are those of the elements in the trees. -/
theorem exists_starts_of_marksAll {around : Address} {earlier : Nat} {elements : List Element}
    {marks : List (Text × Mark)} (h : marks.map Prod.snd = Element.marksAll elements)
    (more : List (Text × Mark)) :
    ∃ tags, startTagsFrom around earlier (marks ++ more) =
        tags ++ startTagsFrom around (earlier + elements.length) more ∧
      List.Forall₂ StartTag.Starts tags (starts around earlier elements) := by
  induction around, earlier, elements using starts.induct generalizing marks more with
  | case1 around earlier =>
      obtain rfl := List.map_eq_nil_iff.mp h
      refine ⟨[], rfl, ?_⟩
      rw [starts]
      exact .nil
  | case2 around earlier name attributes children elements ihInner ihLater =>
      rw [Element.marksAll, Element.marks, List.cons_append, List.append_assoc] at h
      obtain ⟨⟨place, _⟩, marks, rfl, rfl, below⟩ := List.map_eq_cons_iff.mp h
      obtain ⟨inner, marks, rfl, hinner, behind⟩ := List.map_eq_append_iff.mp below
      obtain ⟨⟨place', _⟩, later, rfl, rfl, hlater⟩ := List.map_eq_cons_iff.mp behind
      obtain ⟨tags, splitInner, startInner⟩ :=
        ihInner hinner ((place', .closes name) :: (later ++ more))
      obtain ⟨tags', splitLater, startLater⟩ := ihLater hlater more
      refine ⟨⟨place, attributes, ⟨earlier, name⟩ :: around⟩ :: (tags ++ tags'), ?_, ?_⟩
      · have count : earlier + (elements.length + 1) = earlier + 1 + elements.length := by omega
        simp only [List.cons_append, List.append_assoc, startTagsFrom, splitInner, splitLater,
          List.length_cons, count]
      · rw [starts]
        exact .cons ⟨rfl, rfl⟩ (List.rel_append startInner startLater)

theorem map_marks_of_marksAll {pieces : List Located} {marks : List Mark}
    (h : Event.marksAll (pieces.map Located.event) = .ok marks) :
    (pieces.flatMap Located.marks).map Prod.snd = marks := by
  induction pieces generalizing marks with
  | nil =>
      cases h
      rfl
  | cons piece pieces ih =>
      obtain ⟨first, hfirst, h⟩ := bind_eq_ok_iff.mp h
      obtain ⟨later, hlater, same⟩ := bind_eq_ok_iff.mp h
      cases same
      rw [List.flatMap_cons, List.map_append, ih hlater, Located.marks, hfirst]
      simp [Function.comp_def]

/-- The start tags of a document with a tree are the starts of the elements in the tree. -/
theorem forall₂_startTags {input : Text} {tree : Element}
    (h : Element.ofDocument input = .ok tree) :
    List.Forall₂ StartTag.Starts (startTags (withoutByteOrderMark input)) (starts [] 0 [tree]) := by
  obtain ⟨-, grown, read, finished⟩ := treeOf_eq_ok_iff_foldlM.mp h
  obtain ⟨marks, hmarks, made⟩ := Growth.foldlM_read_eq_ok_iff.mp read
  have whole := map_marks_of_marksAll hmarks
  rw [Growth.exists_finish_iff.mp ⟨grown, made, finished⟩, ← Element.marksAll_singleton] at whole
  obtain ⟨tags, split, starting⟩ := @exists_starts_of_marksAll [] 0 [tree] _ whole []
  rw [List.append_nil] at split
  rw [startTags, split, startTagsFrom, List.append_nil]
  exact starting

/-! ### Elements in elements -/

/-- The address of an element with a tag that stands directly in the element at another address. -/
def isDirectlyIn (outer : Address) (tag : Text) : Address → Bool
  | [] => false
  | standing :: around => decide (around = outer) && sameLetters standing.name tag

theorem isDirectlyIn_cons_of_ne {outer around : Address} (other : around ≠ outer) (tag : Text)
    (standing : Standing) : isDirectlyIn outer tag (standing :: around) = false := by
  simp [isDirectlyIn, other]

/-- Around an element there is one element at each depth. -/
theorem eq_of_suffix {around address : Address} {first second : Standing}
    (h : first :: around <:+ address) (h' : second :: around <:+ address) : first = second := by
  have same := (List.suffix_of_suffix_length_le h h' (by simp)).eq_of_length (by simp)
  exact (List.cons.inj same).1

theorem ne_of_suffix {around address : Address} {standing : Standing}
    (h : standing :: around <:+ address) : around ≠ address := by
  rintro rfl
  exact Nat.not_succ_le_self _ h.length_le

theorem exists_suffix_of_mem_starts {around : Address} {earlier : Nat} {elements : List Element}
    {start : Address × Element} (h : start ∈ starts around earlier elements) :
    ∃ standing, standing :: around <:+ start.1 ∧ earlier ≤ standing.earlier := by
  induction around, earlier, elements using starts.induct with
  | case1 around earlier =>
      rw [starts] at h
      exact nomatch h
  | case2 around earlier name attributes children elements ihInner ihLater =>
      rw [starts, List.mem_cons, List.mem_append] at h
      rcases h with rfl | inner | later
      · exact ⟨_, List.suffix_rfl, Nat.le_refl earlier⟩
      · obtain ⟨_, inside, -⟩ := ihInner inner
        exact ⟨_, (List.suffix_cons _ _).trans inside, Nat.le_refl earlier⟩
      · obtain ⟨standing, inside, behind⟩ := ihLater later
        exact ⟨standing, inside, Nat.le_of_succ_le behind⟩

/-- Trees have nothing directly in an element that is neither around them nor in them. -/
theorem countP_starts_of_apart {around outer : Address} {earlier : Nat} (other : around ≠ outer)
    (apart : ∀ standing : Standing, earlier ≤ standing.earlier → ¬ standing :: around <:+ outer)
    (elements : List Element) (tag : Text) :
    (starts around earlier elements).countP (fun start => isDirectlyIn outer tag start.1) = 0 := by
  rw [List.countP_eq_zero]
  rintro ⟨address, element⟩ present direct
  obtain ⟨standing, inside, behind⟩ := exists_suffix_of_mem_starts present
  cases address with
  | nil => exact nomatch direct
  | cons innermost outer' =>
      obtain ⟨rfl, -⟩ : outer' = outer ∧ _ := by simpa [isDirectlyIn] using direct
      rcases List.suffix_cons_iff.mp inside with same | inside
      · exact other (List.cons.inj same).2
      · exact apart standing behind inside

/-- Directly in the element around some trees are those of them that have the tag. -/
theorem countP_starts_around (around : Address) (earlier : Nat) (elements : List Element)
    (tag : Text) :
    (starts around earlier elements).countP (fun start => isDirectlyIn around tag start.1) =
      (elements.filter fun child => child.hasTag tag).length := by
  rw [← List.countP_eq_length_filter]
  induction elements generalizing earlier with
  | nil =>
      rw [starts]
      rfl
  | cons element elements ih =>
      obtain ⟨name, attributes, children⟩ := element
      have own : isDirectlyIn around tag (⟨earlier, name⟩ :: around) =
          Element.hasTag ⟨name, attributes, children⟩ tag := by
        simp [isDirectlyIn, Element.hasTag]
      have below : (starts (⟨earlier, name⟩ :: around) 0 children).countP
          (fun start => isDirectlyIn around tag start.1) = 0 := by
        apply countP_starts_of_apart (List.cons_ne_self _ _)
        intro standing _ inside
        have short := inside.length_le
        simp only [List.length_cons] at short
        omega
      rw [starts, List.countP_cons, List.countP_append, below, ih, own, List.countP_cons,
        Nat.zero_add]

/-- Directly in an element are its children. -/
theorem countP_starts_of_mem {around : Address} {earlier : Nat} {elements : List Element}
    {start : Address × Element} (h : start ∈ starts around earlier elements) (tag : Text) :
    (starts around earlier elements).countP (fun other => isDirectlyIn start.1 tag other.1) =
      (start.2.childrenNamed tag).length := by
  induction around, earlier, elements using starts.induct with
  | case1 around earlier =>
      rw [starts] at h
      exact nomatch h
  | case2 around earlier name attributes children elements ihInner ihLater =>
      obtain ⟨_, within, -⟩ := exists_suffix_of_mem_starts h
      rw [starts, List.countP_cons, List.countP_append,
        isDirectlyIn_cons_of_ne (ne_of_suffix within)]
      rw [starts, List.mem_cons, List.mem_append] at h
      rcases h with rfl | inner | later
      · have behind : (starts around (earlier + 1) elements).countP (fun other =>
            isDirectlyIn (⟨earlier, name⟩ :: around) tag other.1) = 0 := by
          apply countP_starts_of_apart (ne_of_suffix List.suffix_rfl)
          intro standing later inside
          obtain rfl := eq_of_suffix inside List.suffix_rfl
          exact Nat.not_succ_le_self _ later
        simp only [countP_starts_around, behind]
        rfl
      · obtain ⟨_, inside, -⟩ := exists_suffix_of_mem_starts inner
        have behind : (starts around (earlier + 1) elements).countP (fun other =>
            isDirectlyIn start.1 tag other.1) = 0 := by
          apply countP_starts_of_apart (ne_of_suffix within)
          intro standing later inside'
          obtain rfl := eq_of_suffix inside' ((List.suffix_cons _ _).trans inside)
          exact Nat.not_succ_le_self _ later
        simp [ihInner inner, behind]
      · obtain ⟨_, inside, later'⟩ := exists_suffix_of_mem_starts later
        have apart (inside' : ⟨earlier, name⟩ :: around <:+ start.1) : False := by
          obtain rfl := eq_of_suffix inside inside'
          exact Nat.not_succ_le_self _ later'
        have below : (starts (⟨earlier, name⟩ :: around) 0 children).countP (fun other =>
            isDirectlyIn start.1 tag other.1) = 0 := by
          apply countP_starts_of_apart
          · rintro same
            exact apart (same ▸ List.suffix_rfl)
          · intro standing _ deeper
            exact apart ((List.suffix_cons _ _).trans deeper)
        simp [ihLater later, below]

/-! ### The order of start tags -/

/-- Each piece leaves less of the text unread. -/
theorem pairwise_places (text : Text) :
    ((scan text).pieces.map Located.place).Pairwise
        (fun first later => byteLength later < byteLength first) ∧
      ∀ place ∈ (scan text).pieces.map Located.place, byteLength place ≤ byteLength text := by
  induction text using scan.induct with
  | case1 text step =>
      rw [scan_of_finished step]
      exact ⟨.nil, List.forall_mem_nil _⟩
  | case2 text fault step =>
      rw [scan_of_fault step]
      exact ⟨.nil, List.forall_mem_nil _⟩
  | case3 text event rest step ih =>
      obtain ⟨ordered, within⟩ := ih
      have less : byteLength rest < byteLength text := by
        have whole := congrArg byteLength (eq_of_next step)
        have positive := byteLength_pos event.source_ne_nil
        simp only [byteLength_append] at whole
        omega
      rw [scan_of_event step, List.map_cons]
      refine ⟨List.pairwise_cons.mpr ⟨?_, ordered⟩, List.forall_mem_cons.mpr ⟨Nat.le_refl _, ?_⟩⟩
      · intro place present
        exact Nat.lt_of_le_of_lt (within place present) less
      · intro place present
        exact Nat.le_trans (within place present) (Nat.le_of_lt less)

/-- At most one element starts with a piece. -/
theorem startTagsFrom_piece (around : Address) (earlier : Nat) (piece : Located)
    (more : List (Text × Mark)) :
    ∃ around' earlier',
      startTagsFrom around earlier (piece.marks ++ more) = startTagsFrom around' earlier' more ∨
      ∃ tag : StartTag, tag.place = piece.place ∧
        startTagsFrom around earlier (piece.marks ++ more) =
          tag :: startTagsFrom around' earlier' more := by
  obtain ⟨place, event⟩ := piece
  cases event with
  | openTag content =>
      simp only [Located.marks, Event.marks]
      cases Element.ofTag content with
      | error fault => exact ⟨around, earlier, .inl rfl⟩
      | ok element => exact ⟨⟨earlier, element.name⟩ :: around, 0, .inr ⟨_, rfl, rfl⟩⟩
  | emptyTag content =>
      simp only [Located.marks, Event.marks]
      cases Element.ofTag content with
      | error fault => exact ⟨around, earlier, .inl rfl⟩
      | ok element => exact ⟨around, earlier + 1, .inr ⟨_, rfl, rfl⟩⟩
  | closeTag content =>
      cases around with
      | nil => exact ⟨[], earlier, .inl rfl⟩
      | cons standing outer => exact ⟨outer, standing.earlier + 1, .inl rfl⟩
  | _ => exact ⟨around, earlier, .inl rfl⟩

theorem places_sublist (around : Address) (earlier : Nat) (pieces : List Located) :
    ((startTagsFrom around earlier (pieces.flatMap Located.marks)).map StartTag.place).Sublist
      (pieces.map Located.place) := by
  induction pieces generalizing around earlier with
  | nil => exact .slnil
  | cons piece pieces ih =>
      rw [List.flatMap_cons, List.map_cons]
      obtain ⟨around', earlier', same | ⟨tag, place, same⟩⟩ :=
        startTagsFrom_piece around earlier piece (pieces.flatMap Located.marks)
      · rw [same]
        exact (ih around' earlier').cons _
      · rw [same, List.map_cons, place]
        exact (ih around' earlier').cons_cons _

/-- Start tags stand in the order of their offsets, no two of them at the same. -/
theorem pairwise_startTags (document : Text) :
    (startTags document).Pairwise fun first later =>
      offset document first.place < offset document later.place := by
  obtain ⟨ordered, within⟩ := pairwise_places document
  have offsets : ((scan document).pieces.map Located.place).Pairwise
      fun first later => offset document first < offset document later := by
    apply ordered.imp_of_mem
    intro first later present _ less
    have inside := within first present
    unfold offset
    omega
  have starting := offsets.sublist (places_sublist [] 0 (scan document).pieces)
  rwa [List.pairwise_map] at starting

end Xml

end FetchQuery
