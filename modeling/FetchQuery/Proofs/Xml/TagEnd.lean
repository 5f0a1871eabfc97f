import FetchQuery.Proofs.Xml.Tag

/-!
# Where a tag ends

A tag ends at the first `>` outside quotes. However a tag was written, that is the one
after it: the name, the keys and the blanks hold neither `>` nor quotes, and values stand
between two of a quote that they do not hold. So a tag that was written is one piece of a
document, and a slash after it makes it an empty one.
-/

namespace FetchQuery

namespace Xml

open Text

/-- A text that the search for the end of a tag passes over. -/
def Enclosed (text : Text) : Prop :=
  ∀ rest, cutTag? none (text ++ rest) =
    (cutTag? none rest).map fun (before, after) => (text ++ before, after)

namespace Enclosed

theorem nil : Enclosed [] := by
  intro rest
  simp

theorem append {first second : Text} (hfirst : Enclosed first) (hsecond : Enclosed second) :
    Enclosed (first ++ second) := by
  intro rest
  rw [List.append_assoc, hfirst, hsecond, Option.map_map]
  congr 1
  funext parts
  simp

theorem char {c : Char} (hquote : isQuote c = false) (hend : c ≠ '>') : Enclosed [c] := by
  intro rest
  simp [cutTag?, quoteAfter, hquote, hend]

theorem chars {text : Text} (h : ∀ c ∈ text, isQuote c = false ∧ c ≠ '>') : Enclosed text := by
  induction text with
  | nil => exact nil
  | cons c text ih =>
      rw [List.forall_mem_cons] at h
      exact (char h.1.1 h.1.2).append (ih h.2)

/-- Nothing in quotes ends a tag. -/
theorem quoted {quote : Char} {body : Text} (hquote : isQuote quote = true) (free : quote ∉ body) :
    Enclosed (quote :: (body ++ [quote])) := by
  have isMark : quote ≠ '>' := by
    rintro rfl
    exact absurd hquote (by decide)
  have inside (rest : Text) : cutTag? (some quote) (body ++ quote :: rest) =
      (cutTag? none rest).map fun (before, after) => (body ++ quote :: before, after) := by
    induction body with
    | nil => simp [cutTag?, quoteAfter]
    | cons c body ih =>
        rw [List.mem_cons, not_or] at free
        simp [cutTag?, quoteAfter, Ne.symm free.1, ih free.2, Function.comp_def]
  intro rest
  simp [cutTag?, quoteAfter, hquote, isMark, inside, Function.comp_def]

theorem blanks {blanks : Text} (h : IsBlanks blanks) : Enclosed blanks := by
  apply chars
  intro c hc
  have blank := h c hc
  simp only [isBlank, Bool.or_eq_true, beq_iff_eq] at blank
  rcases blank with ((rfl | rfl) | rfl) | rfl <;> decide

/-- The search for the end of a tag stops right after what it passed over. -/
theorem cutTag? {text : Text} (h : Enclosed text) (rest : Text) :
    cutTag? none (text ++ '>' :: rest) = some (text, rest) := by
  rw [h]
  simp [Xml.cutTag?]

end Enclosed

theorem IsName.enclosed {name : Text} (h : IsName name) : Enclosed name := by
  apply Enclosed.chars
  intro c hc
  have mark := h.noMark c hc
  simp only [List.mem_cons, not_or] at mark
  simp [isQuote, mark]

theorem IsKey.enclosed {key : Text} (h : IsKey key) : Enclosed key := by
  apply Enclosed.chars
  intro c hc
  have mark := h.noMark c hc
  simp only [List.mem_cons, not_or] at mark
  simp [isQuote, mark]

theorem WritesAttribute.enclosed {pair : Attribute} {written : Text}
    (h : WritesAttribute pair written) (hkey : IsKey pair.key) : Enclosed written := by
  cases h with
  | @mk key value before after written quote hbefore hafter hquote _ free =>
      have equals : Enclosed ['='] := .char (by decide) (by decide)
      have value := (equals.append (.blanks hafter)).append (.quoted hquote free)
      simpa using hkey.enclosed.append ((Enclosed.blanks hbefore).append value)

theorem WritesAttributes.enclosed {pairs : List Attribute} {written : Text}
    (h : WritesAttributes pairs written) (hkeys : ∀ pair ∈ pairs, IsKey pair.key) :
    Enclosed written := by
  induction h with
  | nil => exact .nil
  | cons hblanks h _ ih =>
      rw [List.forall_mem_cons] at hkeys
      exact (Enclosed.blanks hblanks).append ((h.enclosed hkeys.1).append (ih hkeys.2))

theorem WritesTag.enclosed {name content : Text} {attributes : List Attribute}
    (h : WritesTag name attributes content) (hname : IsName name)
    (hkeys : ∀ pair ∈ attributes, IsKey pair.key) : Enclosed content := by
  cases h with
  | mk h _ hblanks =>
      exact hname.enclosed.append ((h.enclosed hkeys).append (Enclosed.blanks hblanks))

/-! ### The last character of a tag -/

theorem WritesAttribute.getLast? {pair : Attribute} {written : Text}
    (h : WritesAttribute pair written) : ∃ quote, isQuote quote = true ∧
      written.getLast? = some quote := by
  cases h with
  | @mk key value before after written quote _ _ hquote _ _ =>
      refine ⟨quote, hquote, ?_⟩
      simp [List.getLast?_append, List.getLast?_cons]

theorem WritesAttributes.getLast? {pairs : List Attribute} {written : Text}
    (h : WritesAttributes pairs written) : ∀ c ∈ written.getLast?, isQuote c = true := by
  induction h with
  | nil => simp
  | cons _ h _ ih =>
      intro c hc
      obtain ⟨quote, hquote, last⟩ := h.getLast?
      simp only [List.getLast?_append, last, Option.mem_def, Option.or_eq_some_iff,
        Option.or_eq_none_iff, Option.some.injEq] at hc
      rcases hc with (hc | ⟨-, rfl⟩) | ⟨⟨-, hc⟩, -⟩
      · exact ih c hc
      · exact hquote
      · exact nomatch hc

/-- No slash ends a tag that was written, so that it is not taken for an empty one. -/
theorem WritesTag.getLast?_ne {name content : Text} {attributes : List Attribute}
    (h : WritesTag name attributes content) (hname : IsName name) :
    content.getLast? ≠ some '/' := by
  cases h with
  | @mk written blanks h _ hblanks =>
      intro last
      simp only [List.getLast?_append, Option.or_eq_some_iff] at last
      rcases last with (last | ⟨-, last⟩) | ⟨-, last⟩
      · exact absurd (hblanks '/' (List.mem_of_getLast? last)) (by decide)
      · exact absurd (h.getLast? '/' last) (by decide)
      · exact absurd (by simp) (hname.noMark '/' (List.mem_of_getLast? last))

/-! ### Tags as pieces of a document -/

/-- What starts like a name is neither a closing tag nor other markup. -/
theorem markupStep_of_isName {name : Text} (h : IsName name) (rest : Text) :
    markupStep (name ++ rest) = .ofCut startTag .tagNotClosed (cutTag? none (name ++ rest)) := by
  obtain ⟨first, tail, rfl⟩ := List.exists_cons_of_ne_nil h.nonempty
  have mark := h.noMark first (by simp)
  have start := h.start
  unfold markupStep
  split
  · next same => simp_all
  · next same => simp_all
  · next same => simp_all
  · rfl

section

variable {name content : Text} {attributes : List Attribute}

theorem next_openTag (h : WritesTag name attributes content) (hname : IsName name)
    (hkeys : ∀ pair ∈ attributes, IsKey pair.key) (rest : Text) :
    next ('<' :: (content ++ '>' :: rest)) = .event (.openTag content) rest := by
  have cut := (h.enclosed hname hkeys).cutTag? rest
  have last := h.getLast?_ne hname
  obtain ⟨tail, rfl⟩ : ∃ tail, content = name ++ tail := by
    cases h
    exact ⟨_, rfl⟩
  rw [next_markup, List.append_assoc, markupStep_of_isName hname, ← List.append_assoc, cut]
  simp only [Step.ofCut, startTag, if_neg last]

theorem next_emptyTag (h : WritesTag name attributes content) (hname : IsName name)
    (hkeys : ∀ pair ∈ attributes, IsKey pair.key) (rest : Text) :
    next ('<' :: (content ++ '/' :: '>' :: rest)) = .event (.emptyTag content) rest := by
  have slash : Enclosed ['/'] := .char (by decide) (by decide)
  have cut := ((h.enclosed hname hkeys).append slash).cutTag? rest
  obtain ⟨tail, rfl⟩ : ∃ tail, content = name ++ tail := by
    cases h
    exact ⟨_, rfl⟩
  rw [List.append_assoc, List.singleton_append] at cut
  rw [next_markup, List.append_assoc, markupStep_of_isName hname, ← List.append_assoc, cut]
  simp [Step.ofCut, startTag]

end

theorem next_closeTag {name blanks : Text} (hname : IsName name) (hblanks : IsBlanks blanks)
    (rest : Text) :
    next ('<' :: '/' :: (name ++ (blanks ++ '>' :: rest))) =
      .event (.closeTag (name ++ blanks)) rest := by
  have cut := (hname.enclosed.append (Enclosed.blanks hblanks)).cutTag? rest
  rw [List.append_assoc] at cut
  rw [next_markup]
  simp only [markupStep, cut, Step.ofCut]

end Xml

end FetchQuery
