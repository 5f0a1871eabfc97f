import FetchQuery.Outcome
import FetchQuery.Text.Blank
import FetchQuery.Xml.Element
import FetchQuery.Xml.Reference
import FetchQuery.Xml.Scan

/-!
# Tags

The content of a tag is a name and attributes. A name runs to the first blank. An
attribute is a key, an equals sign and a value in quotes, with blanks between these as
one likes; a key is everything up to the next blank or equals sign after its first
character, whatever that is. Values are decoded one by one, as they are read.

## Implementation notes

A position in a fault is what the content holds before the place of the fault
(`position`).
-/

namespace FetchQuery

namespace Xml

open Text Outcome

/-- The name of a tag. -/
def tagName (content : Text) : Text :=
  content.takeWhile fun c => !isBlank c

/-- The position of a place in the content of a tag, given by the text from there on. -/
def position (content place : Text) : Nat :=
  byteLength content - byteLength place

/-- A character that may follow the first one of a key. -/
def isKeyChar (c : Char) : Bool :=
  !(isBlank c || c == '=')

/-- The key that starts with a character, and what follows its equals sign. -/
def readKey (content : Text) (first : Char) (rest : Text) :
    Except AttributeFault (Text × Text) :=
  match dropBlanks (rest.dropWhile isKeyChar) with
  | '=' :: after => .ok (first :: rest.takeWhile isKeyChar, after)
  | place => .error (.noEquals (position content place))

/-- The value in quotes at the front of a text, as written, and what follows it. -/
def readQuoted (content text : Text) : Except AttributeFault (Text × Text) :=
  match dropBlanks text with
  | [] => .error (.noValue (position content []))
  | quote :: body =>
      if isQuote quote then
        match body.dropWhile (· != quote) with
        | [] => .error (.unclosedQuote (position content []) quote)
        | _ :: after => .ok (body.takeWhile (· != quote), after)
      else .error (.noQuote (position content (quote :: body)))

/-- The keys of a tag that have been read, each with its position. -/
abbrev Keys := List (Text × Nat)

/-- Requires that a key at a position has not been read before. -/
def checkFresh (keys : Keys) (key : Text) (position : Nat) : Except AttributeFault Unit :=
  match keys.lookup key with
  | some previous => .error (.duplicate position previous)
  | none => .ok ()

/-- The attribute whose key starts with a character, and what follows the attribute. -/
def readAttribute (content : Text) (keys : Keys) (first : Char) (rest : Text) :
    Except TagFault (Attribute × Text) := do
  let (key, after) ← (readKey content first rest).mapError .badAttribute
  (checkFresh keys key (position content (first :: rest))).mapError .badAttribute
  let (written, after) ← (readQuoted content after).mapError .badAttribute
  let value ← (decode written).mapError (.badValue key)
  return (⟨key, value⟩, after)

/-! ### An attribute is cut off the front -/

/-- The key, blanks, an equals sign and the rest make up what was read. -/
theorem eq_of_readKey {content rest key after : Text} {first : Char}
    (h : readKey content first rest = .ok (key, after)) :
    first :: rest = key ++ (rest.dropWhile isKeyChar).takeWhile isBlank ++ '=' :: after := by
  unfold readKey dropBlanks at h
  split at h
  · next equals =>
    cases h
    have whole := List.takeWhile_append_dropWhile (p := isKeyChar) (l := rest)
    have blanks := List.takeWhile_append_dropWhile (p := isBlank) (l := rest.dropWhile isKeyChar)
    rw [equals] at blanks
    rw [List.cons_append, List.cons_append, List.append_assoc, blanks, whole]
  · simp at h

/-- Blanks, the value between its quotes and the rest make up what was read. The value does not
hold its quote. -/
theorem eq_of_readQuoted {content text written after : Text}
    (h : readQuoted content text = .ok (written, after)) :
    ∃ quote, isQuote quote = true ∧ quote ∉ written ∧
      text = text.takeWhile isBlank ++ quote :: (written ++ quote :: after) := by
  unfold readQuoted dropBlanks at h
  split at h
  · simp at h
  · next quote body start =>
    split at h
    · next isquote =>
      split at h
      · simp at h
      · next c after' stop =>
        cases h
        have hc : c = quote := by
          have := List.head_dropWhile_not (fun x => x != quote) (l := body) (by simp [stop])
          simpa [stop] using this
        have whole := List.takeWhile_append_dropWhile (p := fun x => x != quote) (l := body)
        rw [stop, hc] at whole
        have blanks := List.takeWhile_append_dropWhile (p := isBlank) (l := text)
        rw [start] at blanks
        have free : quote ∉ body.takeWhile (· != quote) := by
          intro inside
          have other := List.all_eq_true.mp (List.all_takeWhile (p := (· != quote)) (l := body))
          simpa using other quote inside
        exact ⟨quote, isquote, free, by rw [whole, blanks]⟩
    · simp at h

/-- An attribute is read when its key, its value and the value's decoding are. -/
theorem readAttribute_eq_ok_iff {content rest after : Text} {keys : Keys} {first : Char}
    {pair : Attribute} :
    readAttribute content keys first rest = .ok (pair, after) ↔
      ∃ afterKey written, readKey content first rest = .ok (pair.key, afterKey) ∧
        checkFresh keys pair.key (position content (first :: rest)) = .ok () ∧
        readQuoted content afterKey = .ok (written, after) ∧
        decode written = .ok pair.value := by
  obtain ⟨key, value⟩ := pair
  simp only [readAttribute, bind_eq_ok_iff, mapError_eq_ok_iff]
  constructor
  · rintro ⟨⟨key', afterKey⟩, hkey, fresh, hfresh, ⟨written, after'⟩, hquoted, value', hvalue, same⟩
    cases same
    exact ⟨afterKey, written, hkey, hfresh, hquoted, hvalue⟩
  · rintro ⟨afterKey, written, hkey, hfresh, hquoted, hvalue⟩
    exact ⟨(key, afterKey), hkey, (), hfresh, (written, after), hquoted, value, hvalue, rfl⟩

/-- An attribute takes at least one character. -/
theorem length_le_of_readAttribute {content rest after : Text} {keys : Keys} {first : Char}
    {pair : Attribute} (h : readAttribute content keys first rest = .ok (pair, after)) :
    after.length ≤ rest.length := by
  obtain ⟨afterKey, written, hkey, -, hquoted, -⟩ := readAttribute_eq_ok_iff.mp h
  obtain ⟨quote, -, -, whole⟩ := eq_of_readQuoted hquoted
  have key := congrArg List.length (eq_of_readKey hkey)
  have value := congrArg List.length whole
  simp only [List.length_append, List.length_cons] at key value
  omega

/-! ### All attributes -/

/-- Reads the attributes in what is left of the content of a tag. -/
def readAttributes (content : Text) (keys : Keys) (text : Text) :
    Except TagFault (List Attribute) :=
  match _start : dropBlanks text with
  | [] => .ok []
  | first :: rest =>
      match _step : readAttribute content keys first rest with
      | .error fault => .error fault
      | .ok (pair, after) => do
          let more ← readAttributes content ((pair.key, position content (first :: rest)) :: keys)
            after
          return pair :: more
termination_by text.length
decreasing_by
  have blanks := (List.dropWhile_sublist isBlank (l := text)).length_le
  have shorter := length_le_of_readAttribute _step
  simp only [dropBlanks] at _start
  simp only [_start, List.length_cons] at blanks
  omega

section

variable {content text rest after : Text} {keys : Keys} {first : Char} {pair : Attribute}

theorem readAttributes_of_ended (h : dropBlanks text = []) :
    readAttributes content keys text = .ok [] := by
  rw [readAttributes]
  split
  · rfl
  · next start => exact nomatch h.symm.trans start

theorem readAttributes_of_fault {fault : TagFault} (h : dropBlanks text = first :: rest)
    (step : readAttribute content keys first rest = .error fault) :
    readAttributes content keys text = .error fault := by
  rw [readAttributes]
  split
  · next ended => exact nomatch h.symm.trans ended
  · next start =>
    cases h.symm.trans start
    split
    · next step' =>
      cases step.symm.trans step'
      rfl
    · next step' => exact nomatch step.symm.trans step'

theorem readAttributes_of_attribute (h : dropBlanks text = first :: rest)
    (step : readAttribute content keys first rest = .ok (pair, after)) :
    readAttributes content keys text = do
      let more ← readAttributes content ((pair.key, position content (first :: rest)) :: keys) after
      return pair :: more := by
  rw [readAttributes]
  split
  · next ended => exact nomatch h.symm.trans ended
  · next start =>
    cases h.symm.trans start
    split
    · next step' => exact nomatch step.symm.trans step'
    · next step' =>
      cases step.symm.trans step'
      rfl

end

/-- The element that a tag opens, still without children. -/
def Element.ofTag (content : Text) : Except TagFault Element := do
  let attributes ← readAttributes content [] (content.dropWhile fun c => !isBlank c)
  return ⟨tagName content, attributes, []⟩

end Xml

end FetchQuery
