import Mathlib.Tactic.SplitIfs
import FetchQuery.Text.Encoding
import FetchQuery.Proofs.Text.Span

/-!
# Lines of a text

Input is cut into lines byte by byte, before it is decoded. UTF-8 keeps the byte of a line
feed for the line feed, so the lines of the bytes that write a text are the bytes that write
its lines (`lines_utf8`).
-/

namespace FetchQuery

/-! ### Lines of bytes -/

namespace Bytes

/-- Bytes without a line feed are the beginning of the first line. -/
theorem lines_append {part rest : Bytes} (free : lineFeed ∉ part) (nonempty : part ≠ []) :
    lines (part ++ rest) =
      match lines rest with
      | [] => [part]
      | line :: more => (part ++ line) :: more := by
  induction part with
  | nil => exact absurd rfl nonempty
  | cons byte part ih =>
      rw [List.mem_cons, not_or] at free
      have inside : (byte == lineFeed) = false := beq_eq_false_iff_ne.mpr (Ne.symm free.1)
      rw [List.cons_append, lines, if_neg (by simp [inside])]
      by_cases last : part = []
      · subst last
        rw [List.nil_append]
        cases lines rest <;> rfl
      · rw [ih free.2 last]
        cases lines rest <;> rfl

/-- Bytes that end with a line feed, or none at all. -/
def AreLines (bytes : Bytes) : Prop :=
  bytes = [] ∨ bytes.getLast? = some lineFeed

/-- Behind the end of a line the lines start anew. -/
theorem lines_append_of_areLines {first : Bytes} (ended : AreLines first) (second : Bytes) :
    lines (first ++ second) = lines first ++ lines second := by
  induction first with
  | nil => rfl
  | cons byte first ih =>
      have last : (byte :: first).getLast? = some lineFeed :=
        ended.resolve_left (List.cons_ne_nil byte first)
      have ended' : AreLines first := by
        cases first with
        | nil => exact .inl rfl
        | cons next first => exact .inr (List.getLast?_cons_cons.symm.trans last)
      rw [List.cons_append, lines, lines, ih ended']
      split
      · rfl
      · next inside =>
        cases later : lines first with
        | cons line more => rfl
        | nil =>
            -- A line that is begun has to be ended, so there are more bytes.
            have none_left : first = [] := by rw [← flatten_lines first, later, List.flatten_nil]
            rw [none_left, List.getLast?_singleton, Option.some.injEq] at last
            exact absurd (beq_iff_eq.mpr last) inside

end Bytes

namespace Text

open Bytes

/-- Only a line feed is written with the byte of a line feed: the bytes of any other
character are its code point or from 128 on. -/
theorem lineFeed_notMem_utf8EncodeChar {c : Char} (h : c ≠ '\n') :
    lineFeed ∉ String.utf8EncodeChar c := by
  have code : c.val.toNat ≠ 10 := by
    intro same
    apply h
    rw [← Char.toNat_inj]
    exact same
  intro inside
  have codes : (10 : Nat) ∈ (String.utf8EncodeChar c).map UInt8.toNat :=
    List.mem_map_of_mem (f := UInt8.toNat) inside
  dsimp only [String.utf8EncodeChar] at codes
  split_ifs at codes <;>
    · simp only [List.map_cons, List.map_nil, List.mem_cons, List.not_mem_nil, or_false,
        UInt8.toNat_ofNat'] at codes
      omega

/-- The lines of a text, each with the line feed that ends it. Characters after the last
line feed are a line of their own. -/
def lines : Text → List Text
  | [] => []
  | c :: rest =>
      if c == '\n' then [c] :: lines rest
      else
        match lines rest with
        | [] => [[c]]
        | line :: more => (c :: line) :: more

/-- A text that is written in UTF-8 has its own lines. -/
theorem lines_utf8 (text : Text) : (utf8 text).lines = (lines text).map utf8 := by
  induction text with
  | nil => rfl
  | cons c rest ih =>
      have first : utf8 (c :: rest) = String.utf8EncodeChar c ++ utf8 rest := List.flatMap_cons
      rw [first, lines]
      split
      · next ended =>
        rw [beq_iff_eq] at ended
        subst ended
        exact congrArg ([lineFeed] :: ·) ih
      · next inside =>
        have free := lineFeed_notMem_utf8EncodeChar (by simpa using inside)
        rw [Bytes.lines_append free String.utf8EncodeChar_ne_nil, ih]
        cases lines rest with
        | nil => simp [utf8]
        | cons line more => simp [utf8]

/-- The lines together are the text. -/
theorem flatten_lines (text : Text) : (lines text).flatten = text := by
  have whole (parts : List Text) : utf8 parts.flatten = (parts.map utf8).flatten := by
    induction parts with
    | nil => rfl
    | cons part parts ih =>
        rw [List.flatten_cons, utf8_append, ih, List.map_cons, List.flatten_cons]
  have same : utf8 (lines text).flatten = utf8 text := by
    rw [whole, ← lines_utf8, Bytes.flatten_lines]
  have decoded := congrArg Bytes.text? same
  rw [text?_utf8, text?_utf8] at decoded
  exact Option.some.inj decoded

end Text

end FetchQuery
