import FetchQuery.Proofs.Run
import FetchQuery.Proofs.Xml.FaultPosition
import FetchQuery.Proofs.Xml.TagGrammar

/-!
# Reading comes to an end

Reading a document is a loop from piece to piece. Each piece takes at least one byte that no piece
before it has taken, and none is taken behind the end of the document. It is the same with the
attributes of a tag. So both loops end, with what reading gives, after at most as many pieces as
the document has bytes, and as many attributes as the tag has (`reading_terminates`).

## Implementation notes

The end of a text is found by taking the `<` behind it. That byte is counted to the piece that it
starts, but it has been taken before, so more has been taken than is counted (`Cursor.taken`).
-/

namespace FetchQuery

namespace Xml

open Text Outcome

/-- Where the reading of a document stands between two pieces. -/
structure Cursor where
  /-- What is not counted as read. -/
  text : Text
  /-- Whether the `<` at the front has been taken, to find the end of the text before it. -/
  ahead : Bool
  deriving DecidableEq, Repr

namespace Cursor

/-- The place behind a piece. -/
def behind (piece : Event) (rest : Text) : Cursor where
  text := rest
  ahead :=
    match piece with
    | .text _ _ => rest.head? == some '<'
    | _ => false

/-- The number of bytes that have been taken. -/
def taken (document : Text) (cursor : Cursor) : Nat :=
  offset document cursor.text + cursor.ahead.toNat

/-- Reads one piece. There may be no more, or a fault. -/
def step (cursor : Cursor) : Option MarkupFault ⊕ Cursor :=
  match next cursor.text with
  | .finished => .inl none
  | .fault fault => .inl (some fault)
  | .event piece rest => .inr (behind piece rest)

/-- A place in a document. Only a `<` is taken ahead. -/
structure IsIn (document : Text) (cursor : Cursor) : Prop where
  part : cursor.text <:+ document
  mark : cursor.ahead = true → cursor.text.head? = some '<'

end Cursor

/-- Where the reading of a document stands between two pieces, with the tree so far. -/
structure TreeReading where
  growth : Growth
  cursor : Cursor
  deriving DecidableEq, Repr

/-- Reads one piece and lets the tree grow. -/
def TreeReading.step (document : Text) (reading : TreeReading) :
    Except DocumentFault Element ⊕ TreeReading :=
  match next reading.cursor.text with
  | .finished => .inl reading.growth.finish
  | .fault fault => .inl (.error (.markup (offset document reading.cursor.text) fault))
  | .event piece rest =>
      match reading.growth.read document ⟨reading.cursor.text, piece⟩ with
      | .error fault => .inl (.error fault)
      | .ok grown => .inr ⟨grown, .behind piece rest⟩

/-- Where the reading of the attributes of a tag stands between two of them. -/
structure TagReading where
  text : Text
  keys : Keys := []
  attributes : List Attribute := []
  deriving DecidableEq, Repr

/-- Reads one attribute. -/
def TagReading.step (content : Text) (reading : TagReading) :
    Except TagFault (List Attribute) ⊕ TagReading :=
  match dropBlanks reading.text with
  | [] => .inl (.ok reading.attributes)
  | first :: rest =>
      match readAttribute content reading.keys first rest with
      | .error fault => .inl (.error fault)
      | .ok (pair, after) => .inr {
          text := after
          keys := (pair.key, position content (first :: rest)) :: reading.keys
          attributes := reading.attributes ++ [pair] }

/-! ### What a piece takes -/

section

variable {document text rest : Text} {piece : Event}

/-- A place further on has a larger offset, by what stands between the two. -/
theorem offset_add_byteLength {between : Text} (part : text <:+ document)
    (split : text = between ++ rest) :
    offset document text + byteLength between = offset document rest := by
  obtain ⟨before, rfl⟩ := part
  rw [split, offset_append, ← List.append_assoc, offset_append, byteLength_append]

/-- Only a text may be a single byte. -/
theorem Event.two_le_byteLength_source (marked : ∀ first more, piece ≠ .text first more) :
    2 ≤ byteLength piece.source := by
  cases piece with
  | text first more => exact absurd rfl (marked first more)
  | _ => simp [source, byteLength, Char.utf8Size]; omega

end

namespace Cursor

variable {document rest : Text} {cursor : Cursor} {piece : Event}

/-- What has been taken ahead is part of what is not counted. -/
theorem toNat_ahead_le (h : cursor.IsIn document) :
    cursor.ahead.toNat ≤ byteLength cursor.text := by
  cases ahead : cursor.ahead with
  | false => exact Nat.zero_le _
  | true =>
      have nonempty : cursor.text ≠ [] := by
        intro nothing
        have mark := h.mark ahead
        rw [nothing] at mark
        cases mark
      exact byteLength_pos nonempty

/-- A piece is more than what has been taken ahead. -/
theorem toNat_ahead_lt (h : cursor.IsIn document) (read : next cursor.text = .event piece rest) :
    cursor.ahead.toNat < byteLength piece.source := by
  cases ahead : cursor.ahead with
  | false => exact byteLength_pos piece.source_ne_nil
  -- Behind a `<` there is at least the end of the piece.
  | true =>
      obtain ⟨more, start⟩ := List.head?_eq_some_iff.mp (h.mark ahead)
      have marked := isMarked_markupStep more
      rw [← next_markup, ← start, read] at marked
      exact Event.two_le_byteLength_source marked

theorem taken_le (h : cursor.IsIn document) : cursor.taken document ≤ byteLength document := by
  have whole := offset_add_byteLength h.part (List.append_nil cursor.text).symm
  have ahead := toNat_ahead_le h
  have last : offset document [] = byteLength document := Nat.sub_zero _
  unfold taken
  omega

/-- A piece takes at least one byte that has not been taken before. -/
theorem taken_lt_behind (h : cursor.IsIn document) (read : next cursor.text = .event piece rest) :
    (behind piece rest).IsIn document ∧
      cursor.taken document < (behind piece rest).taken document := by
  have split := eq_of_next read
  have further := offset_add_byteLength h.part split
  have more := toNat_ahead_lt h read
  rw [byteLength_append] at further
  refine ⟨⟨?_, ?_⟩, ?_⟩
  · exact .trans ⟨_, split.symm⟩ h.part
  · intro ahead
    unfold behind at ahead
    split at ahead
    · exact eq_of_beq ahead
    · cases ahead
  · have counted : offset document rest ≤ (behind piece rest).taken document :=
      Nat.le_add_right _ _
    unfold taken at counted ⊢
    omega

/-- A step that goes on goes on behind a piece. -/
theorem exists_of_pass {later : Cursor} (h : cursor.step = .inr later) :
    ∃ piece rest, next cursor.text = .event piece rest ∧ later = behind piece rest := by
  unfold step at h
  split at h
  · cases h
  · cases h
  · next piece rest read =>
    cases h
    exact ⟨piece, rest, read, rfl⟩

/-- A step that does not go on finds no piece. -/
theorem scan_of_stop {fault? : Option MarkupFault} (h : cursor.step = .inl fault?) :
    (scan cursor.text).pieces = [] ∧ (scan cursor.text).fault?.map Prod.snd = fault? := by
  unfold step at h
  split at h
  · next read =>
    cases h
    rw [scan_of_finished read]
    exact ⟨rfl, rfl⟩
  · next fault read =>
    cases h
    rw [scan_of_fault read]
    exact ⟨rfl, rfl⟩
  · cases h

/-- Reading piece after piece comes to the end of the document or to a fault of its markup. -/
theorem consumes (document : Text) :
    Consumes step (IsIn document) (taken document) (byteLength document)
      fun cursor => (scan cursor.text).fault?.map Prod.snd where
  within _ := taken_le
  pass cursor later here stepped := by
    obtain ⟨piece, rest, read, rfl⟩ := exists_of_pass stepped
    obtain ⟨there, more⟩ := taken_lt_behind here read
    refine ⟨there, more, ?_⟩
    rw [scan_of_event read]
    rfl
  stop _ _ stepped := (scan_of_stop stepped).2

/-- The loop goes through the pieces of the text. -/
theorem length_pieces_of_run {fault? : Option MarkupFault} {cursors : List Cursor}
    (run : Run step cursor fault? cursors) :
    (scan cursor.text).pieces.length = cursors.length := by
  induction run with
  | stop last => rw [(scan_of_stop last).1, List.length_nil, List.length_nil]
  | pass stepped _ ih =>
      obtain ⟨piece, rest, read, rfl⟩ := exists_of_pass stepped
      rw [scan_of_event read, List.length_cons, List.length_cons, ← ih]
      rfl

end Cursor

/-- Reading pieces into a tree comes to the tree, or to the first fault. -/
theorem TreeReading.consumes (document : Text) :
    Consumes (step document) (fun reading => reading.cursor.IsIn document)
      (fun reading => reading.cursor.taken document) (byteLength document)
      fun reading => reading.growth.readOn document reading.cursor.text where
  within _ := Cursor.taken_le
  pass reading later here stepped := by
    unfold step at stepped
    split at stepped
    · cases stepped
    · cases stepped
    · next piece rest read =>
      split at stepped
      · cases stepped
      · next grown took =>
        cases stepped
        obtain ⟨there, more⟩ := Cursor.taken_lt_behind here read
        refine ⟨there, more, ?_⟩
        rw [Growth.readOn_of_event read, took]
        rfl
  stop reading result stepped := by
    unfold step at stepped
    split at stepped
    · next read =>
      cases stepped
      exact Growth.readOn_of_finished read
    · next fault read =>
      cases stepped
      exact Growth.readOn_of_fault read
    · next piece rest read =>
      split at stepped
      · next fault wrong =>
        cases stepped
        rw [Growth.readOn_of_event read, wrong]
        rfl
      · cases stepped

/-! ### What an attribute takes -/

/-- An attribute is not empty. -/
theorem exists_eq_of_readAttribute {content rest after : Text} {keys : Keys} {first : Char}
    {pair : Attribute} (h : readAttribute content keys first rest = .ok (pair, after)) :
    ∃ source, source ≠ [] ∧ first :: rest = source ++ after := by
  obtain ⟨afterKey, written, hkey, -, hquoted, -⟩ := readAttribute_eq_ok_iff.mp h
  obtain ⟨quote, -, -, value⟩ := eq_of_readQuoted hquoted
  have key := eq_of_readKey hkey
  refine ⟨pair.key ++ (rest.dropWhile isKeyChar).takeWhile isBlank ++
    '=' :: (afterKey.takeWhile isBlank ++ quote :: (written ++ [quote])), by simp, ?_⟩
  rw [key]
  conv_lhs => rw [value]
  simp

/-- Reading attribute after attribute comes to all of them, or to the first fault. -/
theorem TagReading.consumes (content : Text) :
    Consumes (step content) (fun reading => reading.text <:+ content)
      (fun reading => position content reading.text) (byteLength content)
      fun reading => (readAttributes content reading.keys reading.text).map
        (reading.attributes ++ ·) where
  within _ _ := Nat.sub_le _ _
  pass reading later here stepped := by
    unfold step at stepped
    split at stepped
    · cases stepped
    · next first rest start =>
      split at stepped
      · cases stepped
      · next pair after read =>
        cases stepped
        obtain ⟨source, nonempty, split⟩ := exists_eq_of_readAttribute read
        have blanks := eq_of_dropBlanks start
        rw [split, ← List.append_assoc] at blanks
        rw [blanks] at here
        have further := position_add_le here
        have long := byteLength_pos nonempty
        rw [byteLength_append, ← blanks] at further
        have more : position content reading.text < position content after := by omega
        refine ⟨.trans ⟨_, rfl⟩ here, more, ?_⟩
        rw [readAttributes_of_attribute start read]
        cases readAttributes content ((pair.key, position content (first :: rest)) :: reading.keys)
          after with
        | error fault => rfl
        | ok more => exact congrArg Except.ok (List.append_assoc _ _ _)
  stop reading result stepped := by
    unfold step at stepped
    split at stepped
    · next ended =>
      cases stepped
      rw [readAttributes_of_ended ended]
      simp [Except.map]
    · next first rest start =>
      split at stepped
      · next fault wrong =>
        cases stepped
        rw [readAttributes_of_fault start wrong]
        rfl
      · cases stepped

/-! ### Documents -/

/-- Positions do not decrease where more and more is taken, as at most one byte is taken ahead. -/
theorem Cursor.pairwise_offset {document : Text} {cursors : List Cursor}
    (h : (cursors.map (taken document)).Pairwise (· < ·)) :
    (cursors.map fun cursor => offset document cursor.text).Pairwise (· ≤ ·) := by
  rw [List.pairwise_map] at h ⊢
  refine h.imp fun {earlier later} more => ?_
  have ahead := Bool.toNat_le later.ahead
  unfold taken at more
  omega

/-- The attributes of a tag are read to their end, and each of them takes a part of the tag. -/
theorem TagReading.terminates (content : Text) :
    let attributes := content.dropWhile fun c => !isBlank c
    Terminates (step content) (fun reading => position content reading.text) (byteLength content)
      ⟨attributes, [], []⟩ (readAttributes content [] attributes) := by
  intro attributes
  have part : (TagReading.mk attributes [] []).text <:+ content := List.dropWhile_suffix _
  have same : (readAttributes content [] attributes).map ([] ++ ·) =
      readAttributes content [] attributes := by
    cases readAttributes content [] attributes with
    | error fault => rfl
    | ok list => rfl
  rw [← same]
  exact (consumes content).terminates part

/-- Reading ends on every document. Each piece takes at least one byte beyond all that the pieces
before it have taken, and so does each attribute of a tag. Positions do not decrease, and they do
not pass the end. So there are at most as many pieces as the document has bytes, and at most as
many attributes as the tag has. -/
theorem reading_terminates (input : Text) :
    let document := withoutByteOrderMark input
    let front : Cursor := ⟨document, false⟩
    Terminates Cursor.step (Cursor.taken document) (byteLength document) front
      ((scan document).fault?.map Prod.snd) ∧
    (∀ fault? cursors, Run Cursor.step front fault? cursors →
      cursors.length = (scan document).pieces.length ∧
      ((front :: cursors).map fun cursor => offset document cursor.text).Pairwise (· ≤ ·) ∧
      ∀ cursor ∈ cursors, cursor.IsIn document ∧
        offset document cursor.text ≤ byteLength document) ∧
    Terminates (TreeReading.step document) (fun reading => reading.cursor.taken document)
      (byteLength document) ⟨Growth.start, front⟩ (Element.ofDocument input) ∧
    ∀ content, let attributes := content.dropWhile fun c => !isBlank c
      Terminates (TagReading.step content) (fun reading => position content reading.text)
        (byteLength content) ⟨attributes, [], []⟩ (readAttributes content [] attributes) := by
  intro document front
  have inside : front.IsIn document := ⟨List.suffix_refl document, nofun⟩
  have pieces := (Cursor.consumes document).terminates inside
  refine ⟨pieces, ?_, ?_, TagReading.terminates⟩
  · intro fault? cursors run
    obtain ⟨-, advances⟩ := pieces.advances fault? cursors run
    have valid := (Cursor.consumes document).valid_of_run inside run
    refine ⟨(Cursor.length_pieces_of_run run).symm, Cursor.pairwise_offset advances.increasing,
      fun cursor member => ?_⟩
    exact ⟨valid cursor (List.mem_cons_of_mem front member), Nat.sub_le _ _⟩
  · have reading : (TreeReading.mk Growth.start front).cursor.IsIn document := inside
    exact (TreeReading.consumes document).terminates reading

end Xml

end FetchQuery
