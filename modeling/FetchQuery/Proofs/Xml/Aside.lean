import Mathlib.Data.List.TakeWhile
import FetchQuery.Proofs.Text.Span
import FetchQuery.Proofs.Xml.Completion

/-!
# What stands between tags

Text, comments, character data, processing instructions, document type declarations and
references may stand before, between and after tags. Each is one piece of a document and
is no part of the tree, so a document that continues to a tree does so, too, with any of
them in front (`Completes.of_gap`).
-/

namespace FetchQuery

namespace Xml

open Text

/-- A text in which each `<` is closed by a `>` of its own, and each `>` closes one. -/
inductive IsBalanced : Text → Prop
  | nil : IsBalanced []
  | char {c : Char} {text : Text} (notOpen : c ≠ '<') (notClose : c ≠ '>')
      (tail : IsBalanced text) : IsBalanced (c :: text)
  | group {inner text : Text} (inside : IsBalanced inner) (tail : IsBalanced text) :
      IsBalanced ('<' :: (inner ++ '>' :: text))

/-- The ways to write something that is neither text nor a tag. -/
inductive IsAside : Text → Prop
  | comment {body : Text} (open_ended : ¬ ("-->" : Text) <:+: body) :
      IsAside ("<!--" ++ (body ++ "-->"))
  | characterData {body : Text} (open_ended : ¬ ("]]>" : Text) <:+: body) :
      IsAside ("<![CDATA[" ++ (body ++ "]]>"))
  | instruction {body : Text} (open_ended : ¬ ("?>" : Text) <:+: '?' :: body) :
      IsAside ("<?" ++ (body ++ "?>"))
  | doctype {keyword content : Text} (hkeyword : sameLetters keyword doctypeKeyword = true)
      (balanced : IsBalanced content) (named : ∃ c ∈ content, isBlank c = false) :
      IsAside ("<!" ++ (keyword ++ (content ++ ">")))
  | reference {name : Text} (hname : ∀ c ∈ name, c ∉ [';', '&', '<']) :
      IsAside ('&' :: (name ++ [';']))

/-- The ways to fill the place before, between or after tags. -/
inductive IsGap : Text → Prop
  | plain {text : Text} (hplain : ∀ c ∈ text, c ≠ '<' ∧ c ≠ '&') : IsGap text
  | aside {text aside more : Text} (hplain : ∀ c ∈ text, c ≠ '<' ∧ c ≠ '&')
      (haside : IsAside aside) (tail : IsGap more) : IsGap (text ++ (aside ++ more))

theorem isGap_nil : IsGap [] :=
  .plain nofun

/-- A text that does not go on with the text before it. -/
def IsApart (text : Text) : Prop :=
  ∀ c ∈ text.head?, c = '<' ∨ c = '&'

theorem plain_takeWhile (text : Text) : ∀ c ∈ text.takeWhile isPlain, c ≠ '<' ∧ c ≠ '&' := by
  intro c inside
  have kept : isPlain c = true := List.mem_takeWhile_imp inside
  simpa [isPlain] using kept

theorem isApart_dropWhile (text : Text) : IsApart (text.dropWhile isPlain) := by
  intro c start
  have stop := head?_dropWhile c start
  simpa [isPlain, or_iff_not_imp_left] using stop

/-! ### Each aside is one piece -/

theorem IsBalanced.cutBalanced?_append {content : Text} (h : IsBalanced content) (depth : Nat)
    (rest : Text) : cutBalanced? depth (content ++ rest) =
      (cutBalanced? depth rest).map fun (before, after) => (content ++ before, after) := by
  induction h generalizing depth rest with
  | nil => simp
  | char notOpen notClose _ ih =>
      simp [cutBalanced?, notOpen, notClose, ih, Function.comp_def]
  | group _ _ ihInner ihTail =>
      simp [cutBalanced?, ihInner, ihTail, Function.comp_def]

theorem next_comment {body : Text} (h : ¬ ("-->" : Text) <:+: body) (rest : Text) :
    next ("<!--" ++ (body ++ "-->") ++ rest) = .event (.comment body) rest := by
  have cut : cut? "-->" (body ++ ("-->" ++ rest)) = some (body, rest) :=
    cut?_of_not_infix (by decide +kernel) rest h
  have start : ("<!--" : Text) = ['<', '!', '-', '-'] := by simp
  simp only [start, List.cons_append, List.nil_append, List.append_assoc, next_markup, markupStep,
    declarationStep, cut, Step.ofCut]

theorem next_characterData {body : Text} (h : ¬ ("]]>" : Text) <:+: body) (rest : Text) :
    next ("<![CDATA[" ++ (body ++ "]]>") ++ rest) = .event (.characterData body) rest := by
  have cut : cut? "]]>" (body ++ ("]]>" ++ rest)) = some (body, rest) :=
    cut?_of_not_infix (by decide +kernel) rest h
  have start : ("<![CDATA[" : Text) = '<' :: '!' :: '[' :: ("CDATA[" : Text) := by simp
  have keyword : after? "CDATA[" ("CDATA[" ++ (body ++ ("]]>" ++ rest))) =
      some (body ++ ("]]>" ++ rest)) := after?_eq_some_iff.mpr rfl
  simp only [start, List.cons_append, List.append_assoc, next_markup, markupStep,
    declarationStep, keyword, cut, Step.ofCut]

theorem next_instruction {body : Text} (h : ¬ ("?>" : Text) <:+: '?' :: body) (rest : Text) :
    next ("<?" ++ (body ++ "?>") ++ rest) = .event (.instruction body) rest := by
  have cut : cut? "?>" (body ++ ("?>" ++ rest)) = some (body, rest) :=
    cut?_of_not_infix (by decide +kernel) rest fun inside => h (List.infix_cons inside)
  have start : ("<?" : Text) = ['<', '?'] := by simp
  have closed : ∀ more, body ++ ("?>" ++ rest) ≠ '>' :: more := by
    rintro more same
    cases body with
    | nil => simp at same
    | cons c body =>
        cases same
        exact h ⟨[], body, by simp⟩
  simp only [start, List.cons_append, List.nil_append, List.append_assoc, next_markup, markupStep]
  unfold instructionStep
  split
  · next more same => exact absurd same (closed more)
  · rw [cut]
    rfl

/-- The letter that starts a keyword is one of two. -/
theorem eq_of_toLower_eq_d {c : Char} (h : c.toLower = 'd') : c = 'D' ∨ c = 'd' := by
  unfold Char.toLower at h
  split at h
  · have moved : c.val + ('a'.val - 'A'.val) = 'D'.val + ('a'.val - 'A'.val) :=
      congrArg Char.val h
    exact .inl (Char.ext ((UInt32.add_left_inj _).mp moved))
  · exact .inr h

section

variable {keyword content : Text} (hkeyword : sameLetters keyword doctypeKeyword = true)

include hkeyword

theorem toLower_of_sameLetters_doctype :
    toLower keyword = ['d', 'o', 'c', 't', 'y', 'p', 'e'] := by
  rw [(sameLetters_iff keyword doctypeKeyword).mp hkeyword]
  decide +kernel

/-- A declaration with balanced content ends where the content does. -/
theorem cutBalanced?_doctype (balanced : IsBalanced content) (rest : Text) :
    cutBalanced? 0 (keyword ++ (content ++ '>' :: rest)) = some (keyword ++ content, rest) := by
  have letters : IsBalanced keyword := by
    have lower := toLower_of_sameLetters_doctype hkeyword
    have member : ∀ c ∈ keyword, c.toLower ∈ ['d', 'o', 'c', 't', 'y', 'p', 'e'] := by
      intro c hc
      rw [← lower]
      exact List.mem_map_of_mem hc
    clear lower hkeyword
    induction keyword with
    | nil => exact .nil
    | cons c keyword ih =>
        rw [List.forall_mem_cons] at member
        refine .char ?_ ?_ (ih member.2)
        · rintro rfl
          exact absurd member.1 (by decide)
        · rintro rfl
          exact absurd member.1 (by decide)
  rw [letters.cutBalanced?_append, balanced.cutBalanced?_append]
  simp [cutBalanced?]

theorem next_doctype (balanced : IsBalanced content) (named : ∃ c ∈ content, isBlank c = false)
    (rest : Text) :
    next ("<!" ++ (keyword ++ (content ++ ">")) ++ rest) =
      .event (.doctype (keyword ++ content)) rest := by
  have cut := cutBalanced?_doctype hkeyword balanced rest
  have lower := toLower_of_sameLetters_doctype hkeyword
  have length : doctypeKeyword.length = keyword.length := by
    have := congrArg List.length lower
    simp only [toLower, List.length_map] at this
    rw [this]
    decide +kernel
  have step : doctypeStep (keyword ++ (content ++ '>' :: rest)) =
      .event (.doctype (keyword ++ content)) rest := by
    obtain ⟨c, hc, unblank⟩ := named
    have notAll : content.all isBlank = false := by
      rw [List.all_eq_false]
      exact ⟨c, hc, by simp [unblank]⟩
    simp only [doctypeStep, cut, length, List.take_left, List.drop_left, hkeyword, notAll]
    rfl
  have start : ("<!" : Text) = ['<', '!'] := by simp
  have stop : (">" : Text) = ['>'] := by simp
  simp only [start, stop, List.cons_append, List.nil_append, List.append_assoc, next_markup,
    markupStep]
  cases keyword with
  | nil => simp [toLower] at lower
  | cons first tail =>
      simp only [toLower, List.map_cons, List.cons.injEq] at lower
      rcases eq_of_toLower_eq_d lower.1 with rfl | rfl
      · exact step
      · exact step

end

theorem next_reference {name : Text} (hname : ∀ c ∈ name, c ∉ [';', '&', '<']) (rest : Text) :
    next ('&' :: (name ++ [';']) ++ rest) = .event (.reference name) rest := by
  have inside : ∀ c ∈ name, isReferenceChar c = true := by
    intro c hc
    have mark := hname c hc
    simp only [List.mem_cons, not_or] at mark
    simp [isReferenceChar, mark]
  have stop : ∀ c ∈ (';' :: rest).head?, isReferenceChar c = false := by
    simp [isReferenceChar]
  unfold next dropBlanks
  simp only [List.cons_append, List.append_assoc, List.nil_append]
  rw [List.dropWhile_cons_of_neg (by decide)]
  simp only [referenceStep, dropWhile_append_of_stop inside stop,
    takeWhile_append_of_stop inside stop]

/-- An aside is one piece and leaves every growth as it is. -/
theorem IsAside.piece {aside : Text} (h : IsAside aside) :
    ∃ event, (∀ rest, next (aside ++ rest) = .event event rest) ∧
      ∀ growth : Growth, growth.Takes event growth := by
  cases h with
  | comment h => exact ⟨_, next_comment h, fun _ _ _ => rfl⟩
  | characterData h => exact ⟨_, next_characterData h, fun _ _ _ => rfl⟩
  | instruction h => exact ⟨_, next_instruction h, fun _ _ _ => rfl⟩
  | doctype hkeyword balanced named =>
      exact ⟨_, next_doctype hkeyword balanced named, fun _ _ _ => rfl⟩
  | reference hname => exact ⟨_, next_reference hname, fun _ _ _ => rfl⟩

theorem IsAside.isApart {aside : Text} (h : IsAside aside) (rest : Text) :
    IsApart (aside ++ rest) := by
  cases h <;> simp [IsApart]

/-! ### Gaps are passed over -/

/-- Reading on depends on a text only through its pieces. -/
theorem Completes.congr {growth : Growth} {text text' : Text} {tree : Element}
    (h : Completes growth text tree) (same : next text' = next text) :
    Completes growth text' tree := by
  cases h with
  | finish ended finished => exact .finish (same.trans ended) finished
  | read step takes more => exact .read (same.trans step) takes more

theorem next_blanks {blanks : Text} (h : IsBlanks blanks) (text : Text) :
    next (blanks ++ text) = next text := by
  have same : dropBlanks (blanks ++ text) = dropBlanks text := List.dropWhile_append_of_pos h
  unfold next
  rw [same]

/-- Text up to the next tag or reference is one piece. -/
theorem next_text {blanks more rest : Text} {first : Char} (hblanks : IsBlanks blanks)
    (unblank : isBlank first = false) (hplain : ∀ c ∈ first :: more, c ≠ '<' ∧ c ≠ '&')
    (apart : IsApart rest) :
    next (blanks ++ (first :: more ++ rest)) = .event (.text first more) rest := by
  rw [List.forall_mem_cons] at hplain
  have inside : ∀ c ∈ more, isPlain c = true := by
    intro c hc
    simp [isPlain, hplain.2 c hc]
  have stop : ∀ c ∈ rest.head?, isPlain c = false := by
    intro c hc
    rcases apart c hc with rfl | rfl <;> decide
  have start : dropBlanks (blanks ++ (first :: more ++ rest)) = first :: (more ++ rest) :=
    dropBlanks_append_of_stop hblanks (by simpa using unblank)
  unfold next
  rw [start]
  split
  · next same => exact nomatch same
  · next same =>
    cases same
    exact absurd rfl hplain.1.1
  · next same =>
    cases same
    exact absurd rfl hplain.1.2
  · next same =>
    cases same
    rw [takeWhile_append_of_stop inside stop, dropWhile_append_of_stop inside stop]

/-- Text in front of markup is one piece, or none if it is blank. -/
theorem next_plain {text rest : Text} (hplain : ∀ c ∈ text, c ≠ '<' ∧ c ≠ '&')
    (apart : IsApart rest) :
    next (text ++ rest) = next rest ∨
      ∃ first more, next (text ++ rest) = .event (.text first more) rest := by
  have blanks := isBlanks_takeWhile text
  cases left : dropBlanks text with
  | nil =>
      have whole := eq_of_dropBlanks left
      rw [List.append_nil] at whole
      rw [whole]
      exact .inl (next_blanks blanks rest)
  | cons first more =>
      have whole := (eq_of_dropBlanks left).symm
      have unblank := isBlank_of_dropBlanks left
      have plain : ∀ c ∈ first :: more, c ≠ '<' ∧ c ≠ '&' := by
        intro c hc
        apply hplain
        rw [← whole]
        exact List.mem_append_right _ hc
      rw [← whole, List.append_assoc]
      exact .inr ⟨first, more, next_text blanks unblank plain apart⟩

/-- Text in front of a document does not matter. -/
theorem Completes.of_plain {growth : Growth} {text rest : Text} {tree : Element}
    (h : Completes growth rest tree) (apart : IsApart rest)
    (hplain : ∀ c ∈ text, c ≠ '<' ∧ c ≠ '&') : Completes growth (text ++ rest) tree := by
  rcases next_plain hplain apart with same | ⟨first, more, step⟩
  · exact h.congr same
  · exact .read step (fun _ _ => rfl) h

/-- Whatever stands before a tag or at the end does not matter for the tree. -/
theorem Completes.of_gap {growth : Growth} {gap rest : Text} {tree : Element} (hgap : IsGap gap)
    (apart : IsApart rest) (h : Completes growth rest tree) :
    Completes growth (gap ++ rest) tree := by
  induction hgap with
  | plain hplain => exact h.of_plain apart hplain
  | @aside text aside more hplain haside _ ih =>
      obtain ⟨event, step, takes⟩ := haside.piece
      have after : Completes growth (aside ++ (more ++ rest)) tree :=
        .read (step (more ++ rest)) (takes growth) ih
      simpa using after.of_plain (haside.isApart (more ++ rest)) hplain

end Xml

end FetchQuery
