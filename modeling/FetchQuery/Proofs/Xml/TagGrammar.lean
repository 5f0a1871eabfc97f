import FetchQuery.Proofs.Outcome
import FetchQuery.Proofs.Xml.DistinctKeys
import FetchQuery.Proofs.Xml.Tag

/-!
# The grammar of tags

A tag can be read exactly if its content is written as a name and attributes, each key in it
once, and no byte of the content is passed over. For this a key may be any text that can be told
from what follows it, even one that no element ought to have. Where a tag cannot be read because
of an attribute, the positions in the fault lie within the content, and a key that comes again
stands at both positions that the fault names.

## Implementation notes

The keys that were read are kept with their positions. That each of them stands where it is said
to, and before what is left to read (`Keys.Recorded`), is kept by every attribute.
-/

namespace FetchQuery

namespace Xml

open Text Outcome

/-! ### What is read is written -/

section

variable {content text rest written after : Text} {keys : Keys} {first : Char} {key : Text}
  {pair : Attribute} {pairs : List Attribute}

theorem isReadableKey_of_readKey (unblank : isBlank first = false)
    (h : readKey content first rest = .ok (key, after)) : IsReadableKey key := by
  unfold readKey at h
  split at h
  · cases h
    refine ⟨List.cons_ne_nil _ _, ?_, fun c inside => List.mem_takeWhile_imp inside⟩
    rintro c ⟨⟩
    exact unblank
  · exact nomatch h

/-- An attribute that is read was written. -/
theorem exists_writes_of_readAttribute (unblank : isBlank first = false)
    (h : readAttribute content keys first rest = .ok (pair, after)) :
    ∃ written, first :: rest = written ++ after ∧ WritesAttribute pair written ∧
      IsReadableKey pair.key := by
  obtain ⟨afterKey, raw, hkey, -, hquoted, hvalue⟩ := readAttribute_eq_ok_iff.mp h
  obtain ⟨quote, hquote, free, split⟩ := eq_of_readQuoted hquoted
  have whole : first :: rest = pair.key ++ ((rest.dropWhile isKeyChar).takeWhile isBlank ++
      '=' :: (afterKey.takeWhile isBlank ++ quote :: (raw ++ [quote]))) ++ after :=
    calc
      first :: rest = pair.key ++ (rest.dropWhile isKeyChar).takeWhile isBlank ++
          '=' :: afterKey := eq_of_readKey hkey
      _ = pair.key ++ (rest.dropWhile isKeyChar).takeWhile isBlank ++
          '=' :: (afterKey.takeWhile isBlank ++ quote :: (raw ++ quote :: after)) :=
        congrArg (pair.key ++ (rest.dropWhile isKeyChar).takeWhile isBlank ++ '=' :: ·) split
      _ = _ := by simp only [List.append_assoc, List.cons_append, List.nil_append]
  exact ⟨_, whole, .mk (isBlanks_takeWhile _) (isBlanks_takeWhile _) hquote
    (decode_eq_ok_iff.mp hvalue) free, isReadableKey_of_readKey unblank hkey⟩

/-- Attributes that are read were written, with nothing but blanks behind them. -/
theorem exists_writes_of_readAttributes (h : readAttributes content keys text = .ok pairs) :
    ∃ written blanks, text = written ++ blanks ∧ WritesAttributes pairs written ∧
      IsBlanks blanks ∧ ∀ pair ∈ pairs, IsReadableKey pair.key := by
  induction keys, text using readAttributes.induct content generalizing pairs with
  | case1 keys text ended =>
      rw [readAttributes_of_ended ended] at h
      cases h
      have blanks := eq_of_dropBlanks ended
      rw [List.append_nil] at blanks
      exact ⟨[], text, rfl, .nil, blanks ▸ isBlanks_takeWhile text, by simp⟩
  | case2 keys text first rest start fault step =>
      rw [readAttributes_of_fault start step] at h
      cases h
  | case3 keys text first rest start pair after step ih =>
      rw [readAttributes_of_attribute start step, bind_eq_ok_iff] at h
      obtain ⟨others, read, same⟩ := h
      cases same
      obtain ⟨written, split, writes, readable⟩ :=
        exists_writes_of_readAttribute (isBlank_of_dropBlanks start) step
      obtain ⟨more, blanks, rfl, writesMore, hblanks, readableMore⟩ := ih read
      refine ⟨text.takeWhile isBlank ++ (written ++ more), blanks, ?_,
        .cons (isBlanks_takeWhile text) writes writesMore, hblanks,
        List.forall_mem_cons.mpr ⟨readable, readableMore⟩⟩
      calc
        text = text.takeWhile isBlank ++ (first :: rest) := eq_of_dropBlanks start
        _ = text.takeWhile isBlank ++ (written ++ more) ++ blanks := by simp [split]

end

/-- The content of a tag that can be read was written as its name and its attributes. -/
theorem writesTag_of_ofTag {content : Text} {element : Element}
    (h : Element.ofTag content = .ok element) :
    element.children = [] ∧ (∀ c ∈ element.name, isBlank c = false) ∧
      WritesTag element.name element.attributes content ∧
      ∀ pair ∈ element.attributes, IsReadableKey pair.key := by
  obtain ⟨attributes, read, same⟩ := bind_eq_ok_iff.mp h
  cases same
  obtain ⟨written, blanks, split, writes, hblanks, readable⟩ :=
    exists_writes_of_readAttributes read
  have noBlank : ∀ c ∈ tagName content, isBlank c = false := by
    intro c inside
    simpa using List.mem_takeWhile_imp inside
  have whole : content = tagName content ++ (written ++ blanks) := by
    rw [← split]
    exact (List.takeWhile_append_dropWhile).symm
  have apart : ∀ c ∈ written.head?, isBlank c = true := by
    intro c first
    have stop : ∀ c ∈ (written ++ blanks).head?, (!isBlank c) = false := split ▸ head?_dropWhile
    have marked := stop c (by simp [List.head?_append, Option.mem_def.mp first])
    simpa using marked
  have tag : WritesTag (tagName content) attributes (tagName content ++ (written ++ blanks)) :=
    .mk writes apart hblanks
  rw [← whole] at tag
  exact ⟨rfl, noBlank, tag, readable⟩

/-! ### Where the faults of attributes are -/

/-- A key stands, with its equals sign, at a position of the content of a tag. -/
def HoldsKey (content : Text) (position : Nat) (key : Text) : Prop :=
  IsReadableKey key ∧ ∃ before blanks after, IsBlanks blanks ∧ byteLength before = position ∧
    content = before ++ (key ++ (blanks ++ '=' :: after))

/-- Some keys stand in the content of a tag where they are said to, before what is left of it. -/
structure Keys.Recorded (content text : Text) (keys : Keys) : Prop where
  left : text <:+ content
  holds : ∀ entry ∈ keys, entry.2 < position content text ∧ HoldsKey content entry.2 entry.1

/-- The positions in the wording of a fault. -/
def AttributeFault.positions : AttributeFault → List Nat
  | duplicate position previous => [position, previous]
  | fault => [fault.position]

/-- A fault of an attribute that points into the content of the tag. If a key comes again, it
stands at both positions. -/
structure AttributeFault.IsLocated (content : Text) (fault : AttributeFault) : Prop where
  inside : ∀ position ∈ fault.positions, position ≤ byteLength content
  repeated : ∀ position previous, fault = .duplicate position previous → previous < position ∧
    ∃ key, HoldsKey content previous key ∧ HoldsKey content position key

section

variable {content text rest after : Text} {keys : Keys} {first : Char} {key : Text}
  {pair : Attribute}

theorem position_le (content place : Text) : position content place ≤ byteLength content :=
  Nat.sub_le _ _

/-- The position of a place is what stands before it. -/
theorem position_append (before place : Text) :
    position (before ++ place) place = byteLength before := by
  rw [position, byteLength_append, Nat.add_sub_cancel]

/-- What is read on the way to a place stands before it. -/
theorem position_add_le {before : Text} (left : before ++ text <:+ content) :
    position content (before ++ text) + byteLength before = position content text := by
  obtain ⟨earlier, rfl⟩ := left
  rw [position_append, ← List.append_assoc, position_append, byteLength_append]

theorem holdsKey_of_readKey (unblank : isBlank first = false) (left : first :: rest <:+ content)
    (h : readKey content first rest = .ok (key, after)) :
    HoldsKey content (position content (first :: rest)) key := by
  obtain ⟨before, rfl⟩ := left
  refine ⟨isReadableKey_of_readKey unblank h, before, (rest.dropWhile isKeyChar).takeWhile isBlank,
    after, isBlanks_takeWhile _, (position_append before _).symm, ?_⟩
  rw [eq_of_readKey h, List.append_assoc]

namespace Keys.Recorded

/-- A place behind blanks is none before them. -/
theorem position_le_of_dropBlanks (start : dropBlanks text = rest) (left : text <:+ content) :
    position content text ≤ position content rest := by
  rw [eq_of_dropBlanks start] at left ⊢
  rw [← position_add_le left]
  exact Nat.le_add_right _ _

theorem nil (left : text <:+ content) : Recorded content text [] :=
  ⟨left, nofun⟩

/-- An attribute that is read adds its key. -/
theorem cons (h : keys.Recorded content text) (start : dropBlanks text = first :: rest)
    (step : readAttribute content keys first rest = .ok (pair, after)) :
    Recorded content after ((pair.key, position content (first :: rest)) :: keys) := by
  have unblank := isBlank_of_dropBlanks start
  obtain ⟨written, split, writes, -⟩ := exists_writes_of_readAttribute unblank step
  obtain ⟨afterKey, raw, hkey, -⟩ := readAttribute_eq_ok_iff.mp step
  have left : first :: rest <:+ content :=
    (List.suffix_append _ _).trans (eq_of_dropBlanks start ▸ h.left)
  have earlier := position_le_of_dropBlanks start h.left
  have later : position content (first :: rest) < position content after := by
    have nonempty : written ≠ [] := by
      cases writes
      simp
    rw [split] at left ⊢
    rw [← position_add_le left]
    exact Nat.lt_add_of_pos_right (byteLength_pos nonempty)
  constructor
  · exact (List.suffix_append written after).trans (split ▸ left)
  · rw [List.forall_mem_cons]
    refine ⟨⟨later, holdsKey_of_readKey unblank left hkey⟩, fun entry member => ?_⟩
    obtain ⟨before, holds⟩ := h.holds entry member
    exact ⟨before.trans_le (earlier.trans later.le), holds⟩

end Keys.Recorded

variable {fault : AttributeFault}

/-- A fault with one position is located if that lies within the content. -/
theorem AttributeFault.IsLocated.of_single {position : Nat} (here : fault.positions = [position])
    (inside : position ≤ byteLength content) : fault.IsLocated content := by
  constructor
  · rw [here, List.forall_mem_singleton]
    exact inside
  · rintro position previous rfl
    exact nomatch here

theorem isLocated_of_readKey (h : readKey content first rest = .error fault) :
    fault.IsLocated content := by
  unfold readKey at h
  split at h
  · exact nomatch h
  · cases h
    exact .of_single rfl (position_le content _)

theorem isLocated_of_readQuoted (h : readQuoted content text = .error fault) :
    fault.IsLocated content := by
  unfold readQuoted at h
  split at h
  · cases h
    exact .of_single rfl (position_le content _)
  · split at h
    · split at h
      · cases h
        exact .of_single rfl (position_le content _)
      · exact nomatch h
    · cases h
      exact .of_single rfl (position_le content _)

/-- A key that was read before is among the recorded ones. -/
theorem isLocated_of_checkFresh (recorded : keys.Recorded content text)
    (start : dropBlanks text = first :: rest) (hkey : readKey content first rest = .ok (key, after))
    (h : checkFresh keys key (position content (first :: rest)) = .error fault) :
    fault.IsLocated content := by
  unfold checkFresh at h
  split at h
  · next previous found =>
    cases h
    obtain ⟨before, after, split, -⟩ := List.lookup_eq_some_iff.mp found
    have member : (key, previous) ∈ keys := by simp [split]
    obtain ⟨earlier, holds⟩ := recorded.holds _ member
    have left : first :: rest <:+ content :=
      (List.suffix_append _ _).trans (eq_of_dropBlanks start ▸ recorded.left)
    have lower : previous < position content (first :: rest) :=
      earlier.trans_le (Keys.Recorded.position_le_of_dropBlanks start recorded.left)
    constructor
    · intro place member
      simp only [AttributeFault.positions, List.mem_cons, List.not_mem_nil, or_false] at member
      have upper := position_le content (first :: rest)
      rcases member with rfl | rfl
      · exact upper
      · exact lower.le.trans upper
    · rintro place previous' ⟨⟩
      exact ⟨lower, key, holds, holdsKey_of_readKey (isBlank_of_dropBlanks start) left hkey⟩
  · exact nomatch h

theorem isLocated_of_readAttribute (recorded : keys.Recorded content text)
    (start : dropBlanks text = first :: rest)
    (h : readAttribute content keys first rest = .error (.badAttribute fault)) :
    fault.IsLocated content := by
  have same {fault' : AttributeFault} (given : TagFault.badAttribute fault' = .badAttribute fault) :
      fault' = fault := TagFault.badAttribute.inj given
  simp only [readAttribute, bind_eq_error_iff, mapError_eq_error_iff, mapError_eq_ok_iff] at h
  rcases h with ⟨fault', bad, given⟩ | ⟨⟨key, afterKey⟩, hkey, h⟩
  · exact same given ▸ isLocated_of_readKey bad
  rcases h with ⟨fault', bad, given⟩ | ⟨-, -, h⟩
  · exact same given ▸ isLocated_of_checkFresh recorded start hkey bad
  rcases h with ⟨fault', bad, given⟩ | ⟨⟨raw, after⟩, -, h⟩
  · exact same given ▸ isLocated_of_readQuoted bad
  rcases h with ⟨fault', -, given⟩ | ⟨value, -, given⟩
  · exact nomatch given
  · exact nomatch given

theorem isLocated_of_readAttributes (recorded : keys.Recorded content text)
    (h : readAttributes content keys text = .error (.badAttribute fault)) :
    fault.IsLocated content := by
  induction keys, text using readAttributes.induct content with
  | case1 keys text ended =>
      rw [readAttributes_of_ended ended] at h
      cases h
  | case2 keys text first rest start fault' step =>
      rw [readAttributes_of_fault start step] at h
      cases h
      exact isLocated_of_readAttribute recorded start step
  | case3 keys text first rest start pair after step ih =>
      rw [readAttributes_of_attribute start step, bind_eq_error_iff] at h
      rcases h with later | ⟨others, -, given⟩
      · exact ih (recorded.cons start step) later
      · cases given

end

/-- A tag can be read exactly if its content is written as a name without blanks, and attributes
with keys that can be told from what follows them and that differ from each other. If an
attribute of it cannot be read, the positions in the fault lie within the content, and a key
that comes again stands at both of them. -/
theorem ofTag_grammar (content : Text) :
    (∀ element, Element.ofTag content = .ok element ↔
      element.children = [] ∧ (∀ c ∈ element.name, isBlank c = false) ∧
        WritesTag element.name element.attributes content ∧
        (∀ pair ∈ element.attributes, IsReadableKey pair.key) ∧
        (element.attributes.map Attribute.key).Nodup) ∧
    ∀ fault, Element.ofTag content = .error (.badAttribute fault) → fault.IsLocated content := by
  refine ⟨fun element => ⟨fun h => ?_, ?_⟩, fun fault h => ?_⟩
  · obtain ⟨childless, noBlank, tag, readable⟩ := writesTag_of_ofTag h
    exact ⟨childless, noBlank, tag, readable, (Element.distinctKeys_of_ofTag h).nodup⟩
  · rintro ⟨childless, noBlank, tag, readable, distinct⟩
    obtain ⟨name, attributes, children⟩ := element
    cases childless
    exact ofTag_of_writesTag tag noBlank readable distinct
  · rcases bind_eq_error_iff.mp h with bad | ⟨attributes, -, given⟩
    · exact isLocated_of_readAttributes (.nil (List.dropWhile_suffix _)) bad
    · exact nomatch given

/-- Keys of marks, a value right behind another, and blanks around an equals sign. -/
example : Element.ofTag "a/ ==\"<>\"'b \t= '&#x26;\"'" =
    .ok ⟨"a/", [⟨"=", "<>"⟩, ⟨"'b", "&\""⟩], []⟩ := by
  decide +kernel

end Xml

end FetchQuery
