import FetchQuery.Proofs.Xml.Aside

/-!
# A piece is known by its source

A piece ends at a mark of its own, so what follows has no part in it: its source is read as
the piece whatever stands behind it (`next_source`). Only text has no such mark. It is ended
by markup, by a reference or by the end of the document (`next_text`).
-/

namespace FetchQuery

namespace Xml

open Text

/-! ### Cuts stay where they are -/

theorem cutTag?_replace {quote : Option Char} {text before after : Text} (more : Text)
    (h : cutTag? quote text = some (before, after)) :
    cutTag? quote (before ++ '>' :: more) = some (before, more) := by
  induction text generalizing quote before with
  | nil => exact nomatch h
  | cons c rest ih =>
      unfold cutTag? at h
      split at h
      · next stop =>
        cases h
        rw [Bool.and_eq_true, beq_iff_eq] at stop
        simp [cutTag?, stop.1]
      · next inside =>
        obtain ⟨⟨first, second⟩, cut, same⟩ := Option.map_eq_some_iff.mp h
        cases same
        rw [List.cons_append, cutTag?, if_neg inside, ih cut]
        rfl

theorem cutBalanced?_replace {depth : Nat} {text before after : Text} (more : Text)
    (h : cutBalanced? depth text = some (before, after)) :
    cutBalanced? depth (before ++ '>' :: more) = some (before, more) := by
  induction text generalizing depth before with
  | nil => exact nomatch h
  | cons c rest ih =>
      have later {depth : Nat} {before : Text}
          (h : (cutBalanced? depth rest).map (fun parts => (c :: parts.1, parts.2)) =
            some (before, after)) :
          ∃ first, before = c :: first ∧
            cutBalanced? depth (first ++ '>' :: more) = some (first, more) := by
        obtain ⟨⟨first, second⟩, cut, same⟩ := Option.map_eq_some_iff.mp h
        cases same
        exact ⟨first, rfl, ih cut⟩
      simp only [cutBalanced?] at h
      split at h
      · next opens =>
        obtain ⟨first, rfl, cut⟩ := later h
        simp only [List.cons_append, cutBalanced?, if_pos opens, cut]
        rfl
      · next notOpen =>
        split at h
        · next closes =>
          cases depth with
          | zero =>
              cases h
              simp [cutBalanced?]
          | succ depth =>
              obtain ⟨first, rfl, cut⟩ := later h
              simp only [List.cons_append, cutBalanced?, if_neg notOpen, if_pos closes, cut]
              rfl
        · next other =>
          obtain ⟨first, rfl, cut⟩ := later h
          simp only [List.cons_append, cutBalanced?, if_neg notOpen, if_neg other, cut]
          rfl

/-! ### Sources are read as their pieces -/

section

variable {text rest : Text} {event : Event} (more : Text)

/-- Tags that open start with neither of the marks for other markup. -/
theorem markupStep_of_head (h : ∀ c ∈ text.head?, c ≠ '!' ∧ c ≠ '?' ∧ c ≠ '/') :
    markupStep text = .ofCut startTag .tagNotClosed (cutTag? none text) := by
  unfold markupStep
  split
  · exact absurd rfl (h '!' rfl).1
  · exact absurd rfl (h '?' rfl).2.1
  · exact absurd rfl (h '/' rfl).2.2
  · rfl

theorem next_source_of_reference (h : referenceStep text = .event event rest) :
    next (event.source ++ more) = .event event more := by
  unfold referenceStep at h
  split at h
  · cases h
    have marked : ∀ c ∈ text.takeWhile isReferenceChar, c ∉ [';', '&', '<'] := by
      intro c inside
      have kept : isReferenceChar c = true := List.mem_takeWhile_imp inside
      simpa [isReferenceChar, and_assoc] using kept
    have read := next_reference marked more
    simpa [Event.source] using read
  · cases h

theorem next_source_of_doctype (h : doctypeStep text = .event event rest)
    (start : ∀ c ∈ text.head?, c = 'D' ∨ c = 'd') :
    next (event.source ++ more) = .event event more := by
  unfold doctypeStep at h
  split at h
  · cases h
  · next content after cut =>
    split at h
    · next keyword =>
      split at h
      · cases h
      · next named =>
        cases h
        have step : doctypeStep (content ++ '>' :: more) = .event (.doctype content) more := by
          simp only [doctypeStep, cutBalanced?_replace more cut, keyword, named, if_true]
          rfl
        rw [eq_of_cutBalanced? cut] at start
        cases content with
        | nil => exact absurd (start '>' rfl) (by decide)
        | cons c content =>
            rcases start c rfl with rfl | rfl
            · simpa [Event.source, next_markup, markupStep, declarationStep] using step
            · simpa [Event.source, next_markup, markupStep, declarationStep] using step
    · cases h

theorem next_source_of_declaration (h : declarationStep text = .event event rest) :
    next (event.source ++ more) = .event event more := by
  unfold declarationStep at h
  split at h
  · obtain ⟨content, cut, rfl⟩ := eq_some_of_ofCut h
    have read := next_comment (not_infix_of_cut? (by decide +kernel) cut) more
    simpa [Event.source] using read
  · cases h
  · split at h
    · obtain ⟨content, cut, rfl⟩ := eq_some_of_ofCut h
      have read := next_characterData (not_infix_of_cut? (by decide +kernel) cut) more
      simpa [Event.source] using read
    · cases h
  · exact next_source_of_doctype more h (by simp)
  · exact next_source_of_doctype more h (by simp)
  · cases h

theorem next_source_of_instruction (h : instructionStep text = .event event rest) :
    next (event.source ++ more) = .event event more := by
  unfold instructionStep at h
  split at h
  · cases h
  · next notEnd =>
    obtain ⟨content, cut, rfl⟩ := eq_some_of_ofCut h
    have absent : ¬ ("?>" : Text) <:+: '?' :: content := by
      rw [List.infix_cons_iff, not_or]
      refine ⟨?_, not_infix_of_cut? (by decide +kernel) cut⟩
      rintro ⟨tail, same⟩
      have ends : '>' :: tail = content := by simpa using same
      apply notEnd (tail ++ ("?>" ++ rest))
      rw [eq_of_cut? cut, ← ends]
      simp
    have read := next_instruction absent more
    simpa [Event.source] using read

theorem next_source_of_markup (h : markupStep text = .event event rest) :
    next (event.source ++ more) = .event event more := by
  unfold markupStep at h
  split at h
  · exact next_source_of_declaration more h
  · exact next_source_of_instruction more h
  · obtain ⟨content, cut, rfl⟩ := eq_some_of_ofCut h
    simp [Event.source, next_markup, markupStep, cutTag?_replace more cut, Step.ofCut]
  · next notDeclaration notInstruction notClosing =>
    obtain ⟨content, cut, rfl⟩ := eq_some_of_ofCut h
    have start : ∀ c ∈ (content ++ '>' :: more).head?, c ≠ '!' ∧ c ≠ '?' ∧ c ≠ '/' := by
      rw [eq_of_cutTag? cut] at notDeclaration notInstruction notClosing
      cases content with
      | nil => simp
      | cons c content =>
          intro c' start
          cases start
          refine ⟨?_, ?_, ?_⟩
          · rintro rfl
            exact notDeclaration _ rfl
          · rintro rfl
            exact notInstruction _ rfl
          · rintro rfl
            exact notClosing _ rfl
    rw [source_startTag, List.cons_append, List.append_assoc, next_markup, List.singleton_append,
      markupStep_of_head start, cutTag?_replace more cut]
    rfl

end

/-! ### Pieces stay as they are -/

section

variable {text rest more : Text} {event : Event}

/-- A piece starts with a mark, or it is text that ends before one. -/
theorem apart_of_next (h : next text = .event event rest) :
    IsApart (dropBlanks text) ∨ (∃ first tail, event = .text first tail) ∧ IsApart rest := by
  unfold next at h
  split at h
  · exact nomatch h
  · next start =>
    rw [start]
    exact .inl (by simp [IsApart])
  · next start =>
    rw [start]
    exact .inl (by simp [IsApart])
  · cases h
    exact .inr ⟨⟨_, _, rfl⟩, isApart_dropWhile _⟩

theorem IsApart.replace (h : IsApart (text ++ rest)) (nonempty : text ≠ []) :
    IsApart (text ++ more) := by
  obtain ⟨c, text, rfl⟩ := List.exists_cons_of_ne_nil nonempty
  exact h

/-- A piece is the same with anything else behind it. Behind text there has to be something
that ends it. -/
theorem next_replace (h : next text = .event event rest)
    (ended : IsApart (dropBlanks text) ∨ IsApart more) :
    next (text.takeWhile isBlank ++ event.source ++ more) = .event event more := by
  rw [List.append_assoc, next_blanks (isBlanks_takeWhile text)]
  unfold next at h
  split at h
  · exact nomatch h
  · exact next_source_of_markup more h
  · exact next_source_of_reference more h
  · next first tail notMarkup notReference start =>
    cases h
    have plain : ∀ c ∈ first :: tail.takeWhile isPlain, c ≠ '<' ∧ c ≠ '&' := by
      rw [List.forall_mem_cons]
      exact ⟨⟨notMarkup, notReference⟩, plain_takeWhile tail⟩
    have unblank := isBlank_of_dropBlanks start
    have apart : IsApart more := by
      apply ended.resolve_left
      rw [start]
      intro marked
      rcases marked first rfl with isMarkup | isReference
      · exact notMarkup isMarkup
      · exact notReference isReference
    exact next_text isBlanks_nil unblank plain apart

/-- A piece is the same when the text goes on, but for text that is not ended. -/
theorem next_append (h : next text = .event event rest)
    (ended : (∀ first tail, event ≠ .text first tail) ∨ rest ≠ []) :
    next (text ++ more) = .event event (rest ++ more) := by
  have whole : text ++ more = text.takeWhile isBlank ++ event.source ++ (rest ++ more) := by
    rw [← List.append_assoc, ← eq_of_next h]
  rw [whole]
  apply next_replace h
  rcases apart_of_next h with marked | ⟨⟨first, tail, isText⟩, apart⟩
  · exact .inl marked
  · have nonempty : rest ≠ [] := ended.resolve_left fun marked => marked first tail isText
    rw [← List.append_nil rest] at apart
    exact .inr (apart.replace nonempty)

/-- Only text at the very end may not be the same when the text goes on. -/
theorem next_append_cases (h : next text = .event event rest) (more : Text) :
    next (text ++ more) = .event event (rest ++ more) ∨
      (∃ first tail, event = .text first tail) ∧ rest = [] := by
  by_cases ended : (∀ first tail, event ≠ .text first tail) ∨ rest ≠ []
  · exact .inl (next_append h ended)
  · rw [not_or, not_not] at ended
    obtain ⟨isText, atEnd⟩ := ended
    exact .inr ⟨by simpa using isText, atEnd⟩

end

end Xml

end FetchQuery
