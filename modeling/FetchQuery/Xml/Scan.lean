import FetchQuery.Text.Blank
import FetchQuery.Text.AsciiCase
import FetchQuery.Text.Search
import FetchQuery.Xml.Event
import FetchQuery.Xml.Fault

/-!
# The pieces of a document, in order

`next` reads one piece off the front of a text, and `scan` reads piece after piece to
the end of the text or to the first fault. A piece depends on nothing before it, so
what remains to be read is all the state there is. It also gives the place of a piece:
the text that was unread when the piece, and the blanks before it, began.

## Implementation notes

`scan` ends because a piece takes at least one character (`length_lt_of_next`). That is
read off the stronger fact that blanks, source and rest make up the text (`eq_of_next`).
-/

namespace FetchQuery

namespace Xml

open Text

/-- What stands at the front of a text. -/
inductive Step where
  /-- Nothing but blanks. -/
  | finished
  | event (event : Event) (rest : Text)
  | fault (fault : MarkupFault)
  deriving DecidableEq, Repr

/-- A piece with the content that a cut gives, or a fault where there is no cut. -/
def Step.ofCut (event : Text → Event) (fault : MarkupFault) : Option (Text × Text) → Step
  | some (content, rest) => .event (event content) rest
  | none => .fault fault

/-- A character that may stand in the name of a reference. -/
def isReferenceChar (c : Char) : Bool :=
  !(c == ';' || c == '&' || c == '<')

/-- The piece after `&`: a reference runs to the next semicolon. -/
def referenceStep (text : Text) : Step :=
  match text.dropWhile isReferenceChar with
  | ';' :: rest => .event (.reference (text.takeWhile isReferenceChar)) rest
  | _ => .fault .referenceNotClosed

/-- The parts of a text before and after the first `>` that closes no `<` of the text. -/
def cutBalanced? (depth : Nat) : Text → Option (Text × Text)
  | [] => none
  | c :: rest =>
      let later (depth : Nat) := (cutBalanced? depth rest).map fun (before, after) =>
        (c :: before, after)
      if c == '<' then later (depth + 1)
      else if c == '>' then
        match depth with
        | 0 => some ([], rest)
        | depth + 1 => later depth
      else later depth

/-- The keyword of a document type declaration. -/
def doctypeKeyword : Text := "DOCTYPE"

/-- The piece after `<!` that starts like a document type declaration. Its keyword may
be in any case, and something other than blanks has to follow the keyword. -/
def doctypeStep (text : Text) : Step :=
  match cutBalanced? 0 text with
  | none => .fault .doctypeNotClosed
  | some (content, rest) =>
      if sameLetters (content.take doctypeKeyword.length) doctypeKeyword then
        if (content.drop doctypeKeyword.length).all isBlank then .fault .doctypeWithoutName
        else .event (.doctype content) rest
      else .fault .doctypeNotClosed

/-- The piece after `<!`. -/
def declarationStep : Text → Step
  | '-' :: '-' :: body => .ofCut .comment .commentNotClosed (cut? "-->" body)
  | '-' :: _ => .fault .commentNotClosed
  | '[' :: text =>
      match after? "CDATA[" text with
      | some body => .ofCut .characterData .characterDataNotClosed (cut? "]]>" body)
      | none => .fault .characterDataNotClosed
  | 'D' :: text => doctypeStep ('D' :: text)
  | 'd' :: text => doctypeStep ('d' :: text)
  | _ => .fault .unknownMarkup

/-- The piece after `<?`. Its end is not looked for in the mark that starts it. -/
def instructionStep : Text → Step
  | '>' :: _ => .fault .instructionNotClosed
  | text => .ofCut .instruction .instructionNotClosed (cut? "?>" text)

/-- The two quotes of markup. -/
def isQuote (c : Char) : Bool :=
  c == '"' || c == '\''

/-- The quote that is open after a character, given the one that is open before it. -/
def quoteAfter (quote : Option Char) (c : Char) : Option Char :=
  match quote with
  | none => if isQuote c then some c else none
  | some q => if c == q then none else some q

/-- The parts of a tag before and after the first `>` outside quotes. -/
def cutTag? (quote : Option Char) : Text → Option (Text × Text)
  | [] => none
  | c :: rest =>
      if quote.isNone && c == '>' then some ([], rest)
      else (cutTag? (quoteAfter quote c) rest).map fun (before, after) => (c :: before, after)

/-- An opening tag, or an empty one if its content ends in a slash. -/
def startTag (content : Text) : Event :=
  if content.getLast? = some '/' then .emptyTag content.dropLast else .openTag content

/-- The piece after `<`. -/
def markupStep : Text → Step
  | '!' :: text => declarationStep text
  | '?' :: text => instructionStep text
  | '/' :: text => .ofCut .closeTag .tagNotClosed (cutTag? none text)
  | text => .ofCut startTag .tagNotClosed (cutTag? none text)

/-- A character that starts neither markup nor a reference. -/
def isPlain (c : Char) : Bool :=
  !(c == '<' || c == '&')

/-- The piece at the front of a text. Blanks before a piece belong to no piece. -/
def next (text : Text) : Step :=
  match dropBlanks text with
  | [] => .finished
  | '<' :: rest => markupStep rest
  | '&' :: rest => referenceStep rest
  | first :: rest => .event (.text first (rest.takeWhile isPlain)) (rest.dropWhile isPlain)

/-! ### A piece is cut off the front -/

theorem next_markup (text : Text) : next ('<' :: text) = markupStep text := by
  unfold next dropBlanks
  rw [List.dropWhile_cons_of_neg (by decide)]
  rfl

theorem eq_some_of_ofCut {make : Text → Event} {fault : MarkupFault} {cut : Option (Text × Text)}
    {event : Event} {rest : Text} (h : Step.ofCut make fault cut = .event event rest) :
    ∃ content, cut = some (content, rest) ∧ event = make content := by
  cases cut with
  | none => simp [Step.ofCut] at h
  | some parts =>
      obtain ⟨content, after⟩ := parts
      simp only [Step.ofCut, Step.event.injEq] at h
      exact ⟨content, by rw [h.2], h.1.symm⟩

theorem eq_of_cutTag? {quote : Option Char} {text before after : Text}
    (h : cutTag? quote text = some (before, after)) : text = before ++ '>' :: after := by
  induction text generalizing quote before with
  | nil => simp [cutTag?] at h
  | cons c rest ih =>
      unfold cutTag? at h
      split at h
      · simp_all
      · simp only [Option.map_eq_some_iff, Prod.exists, Prod.mk.injEq] at h
        obtain ⟨first, second, hcut, rfl, rfl⟩ := h
        simp [ih hcut]

theorem eq_of_cutBalanced? {depth : Nat} {text before after : Text}
    (h : cutBalanced? depth text = some (before, after)) : text = before ++ '>' :: after := by
  induction text generalizing depth before with
  | nil => simp [cutBalanced?] at h
  | cons c rest ih =>
      have later {d : Nat}
          (h : (cutBalanced? d rest).map (fun (first, second) => (c :: first, second)) =
            some (before, after)) :
          c :: rest = before ++ '>' :: after := by
        simp only [Option.map_eq_some_iff, Prod.exists, Prod.mk.injEq] at h
        obtain ⟨first, second, hcut, rfl, rfl⟩ := h
        simp [ih hcut]
      unfold cutBalanced? at h
      split at h
      · exact later h
      · split at h
        · split at h
          · simp_all
          · exact later h
        · exact later h

theorem source_startTag (content : Text) :
    (startTag content).source = '<' :: (content ++ ['>']) := by
  unfold startTag
  split
  · next last =>
    obtain ⟨before, rfl⟩ := List.getLast?_eq_some_iff.mp last
    simp [Event.source]
  · simp [Event.source]

theorem eq_of_referenceStep {text rest : Text} {event : Event}
    (h : referenceStep text = .event event rest) : '&' :: text = event.source ++ rest := by
  unfold referenceStep at h
  split at h
  · next after stop =>
    cases h
    have whole := List.takeWhile_append_dropWhile (p := isReferenceChar) (l := text)
    rw [stop] at whole
    simp [Event.source, whole]
  · simp at h

theorem eq_of_doctypeStep {text rest : Text} {event : Event}
    (h : doctypeStep text = .event event rest) : '<' :: '!' :: text = event.source ++ rest := by
  unfold doctypeStep at h
  split at h
  · simp at h
  · next content after cut =>
    split at h
    · split at h
      · simp at h
      · cases h
        simp [Event.source, eq_of_cutBalanced? cut]
    · simp at h

theorem eq_of_declarationStep {text rest : Text} {event : Event}
    (h : declarationStep text = .event event rest) :
    '<' :: '!' :: text = event.source ++ rest := by
  unfold declarationStep at h
  split at h
  · obtain ⟨content, cut, rfl⟩ := eq_some_of_ofCut h
    simp [Event.source, eq_of_cut? cut]
  · simp at h
  · split at h
    · next body start =>
      obtain ⟨content, cut, rfl⟩ := eq_some_of_ofCut h
      simp [Event.source, after?_eq_some_iff.mp start, eq_of_cut? cut]
    · simp at h
  · exact eq_of_doctypeStep h
  · exact eq_of_doctypeStep h
  · simp at h

theorem eq_of_instructionStep {text rest : Text} {event : Event}
    (h : instructionStep text = .event event rest) :
    '<' :: '?' :: text = event.source ++ rest := by
  unfold instructionStep at h
  split at h
  · simp at h
  · obtain ⟨content, cut, rfl⟩ := eq_some_of_ofCut h
    simp [Event.source, eq_of_cut? cut]

theorem eq_of_markupStep {text rest : Text} {event : Event}
    (h : markupStep text = .event event rest) : '<' :: text = event.source ++ rest := by
  unfold markupStep at h
  split at h
  · exact eq_of_declarationStep h
  · exact eq_of_instructionStep h
  · obtain ⟨content, cut, rfl⟩ := eq_some_of_ofCut h
    simp [Event.source, eq_of_cutTag? cut]
  · obtain ⟨content, cut, rfl⟩ := eq_some_of_ofCut h
    simp [source_startTag, eq_of_cutTag? cut]

/-- Reading a piece loses nothing: blanks, its source and the rest make up the text. -/
theorem eq_of_next {text rest : Text} {event : Event} (h : next text = .event event rest) :
    text = text.takeWhile isBlank ++ event.source ++ rest := by
  have whole := List.takeWhile_append_dropWhile (p := isBlank) (l := text)
  suffices text.dropWhile isBlank = event.source ++ rest by
    rw [List.append_assoc, ← this, whole]
  unfold next dropBlanks at h
  split at h
  · simp at h
  · next start => rw [start]; exact eq_of_markupStep h
  · next start => rw [start]; exact eq_of_referenceStep h
  · next start =>
    cases h
    simp [Event.source, start]

/-- A piece takes at least one character. -/
theorem length_lt_of_next {text rest : Text} {event : Event}
    (h : next text = .event event rest) : rest.length < text.length := by
  have whole := congrArg List.length (eq_of_next h)
  have nonempty := List.length_pos_iff.mpr event.source_ne_nil
  simp only [List.length_append] at whole
  omega

/-! ### All pieces -/

/-- A piece and the text that was unread when it began. -/
structure Located where
  place : Text
  event : Event
  deriving DecidableEq, Repr

/-- The pieces of a text in order, and the fault that ended the reading, if one did. -/
structure Scan where
  pieces : List Located
  fault? : Option (Text × MarkupFault)
  deriving DecidableEq, Repr

/-- Reads piece after piece, up to the end of the text or to the first fault. -/
def scan (text : Text) : Scan :=
  match _step : next text with
  | .finished => ⟨[], none⟩
  | .fault fault => ⟨[], some (text, fault)⟩
  | .event event rest =>
      let later := scan rest
      ⟨⟨text, event⟩ :: later.pieces, later.fault?⟩
termination_by text.length
decreasing_by exact length_lt_of_next (by assumption)

theorem scan_of_finished {text : Text} (h : next text = .finished) : scan text = ⟨[], none⟩ := by
  rw [scan]
  split <;> simp_all

theorem scan_of_fault {text : Text} {fault : MarkupFault} (h : next text = .fault fault) :
    scan text = ⟨[], some (text, fault)⟩ := by
  rw [scan]
  split <;> simp_all

theorem scan_of_event {text rest : Text} {event : Event} (h : next text = .event event rest) :
    scan text = ⟨⟨text, event⟩ :: (scan rest).pieces, (scan rest).fault?⟩ := by
  rw [scan]
  split <;> simp_all

end Xml

end FetchQuery
