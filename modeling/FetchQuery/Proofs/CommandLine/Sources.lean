import FetchQuery.CommandLine.Run
import FetchQuery.Proofs.CommandLine.Setting
import FetchQuery.Proofs.Report

/-!
# The source of a document does not matter

A document is given on the command line, in a file or on the standard input, among the words that
choose how it is translated and printed. The run reports on the document in the same way, whatever
its source and wherever it is named among these words (`run_eq_ofDocument`). None of these words
asks for verbosity, so nothing is logged.
-/

namespace FetchQuery

namespace CommandLine

open Text Outcome

/-- What a command line chooses about translating and printing a document. -/
structure Choices where
  json : Bool := false
  lineEnding : Option LineEnding := none
  indent : Option Nat := none
  deriving DecidableEq, Repr

namespace Choices

/-- What is set to make the choices. -/
def listed (choices : Choices) : List Setting :=
  (if choices.json then [.json] else []) ++ (choices.lineEnding.map .lineEnding).toList ++
    (choices.indent.map .indent).toList

/-- The settings for a run. What is not chosen is left to the defaults. -/
def settings (choices : Choices) : Settings where
  options := {
    lineBreak := (choices.lineEnding.getD .native).lineBreak
    indent := choices.indent.getD 4 }
  json := choices.json

/-- The options that choices are made with. -/
def switches : List Switch :=
  [.flag .json, .valued .lineEnding, .valued .indent]

theorem map_switch_listed (choices : Choices) :
    (choices.listed.map Setting.switch).Sublist switches := by
  obtain ⟨json, lineEnding, indent⟩ := choices
  cases json <;> cases lineEnding <;> cases indent <;> simp [listed, Setting.switch, switches]

/-- The choices are made in a draft. -/
theorem foldl_set_listed (choices : Choices) :
    choices.listed.foldl Draft.set {} =
      { json := choices.json, lineEnding := choices.lineEnding, indent := choices.indent } := by
  obtain ⟨json, lineEnding, indent⟩ := choices
  cases json <;> cases lineEnding <;> cases indent <;> rfl

/-- Settings of other things do not exclude the choices, nor each other. -/
theorem pairwise_apart (choices : Choices) {input : List Setting}
    (single : (switches ++ input.map Setting.switch).Nodup) :
    (choices.listed ++ input).Pairwise Setting.Apart := by
  apply Setting.pairwise_apart
  rw [List.map_append]
  exact single.sublist (choices.map_switch_listed.append_right _)

/-- Choices and an input give the arguments of a draft, however they are written. -/
theorem ofWords_eq {choices : Choices} {input settings : List Setting} {words : List Text}
    (h : SetsAll words settings) (same : settings.Perm (choices.listed ++ input))
    (apart : (choices.listed ++ input).Pairwise Setting.Apart) :
    Arguments.ofWords words = (input.foldl Draft.set
      { json := choices.json, lineEnding := choices.lineEnding
        indent := choices.indent }).arguments := by
  have apart' : settings.Pairwise Setting.Apart :=
    (same.pairwise_iff Setting.Apart.symm).mpr apart
  rw [Arguments.ofWords_of_setsAll h apart', Setting.foldl_set_eq_of_perm same apart',
    List.foldl_append, foldl_set_listed]

/-- The arguments that name a source beside the choices. -/
def arguments (choices : Choices) (file execute : Option Text) : Arguments where
  file := file
  execute := execute
  json := choices.json
  lineEnding := choices.lineEnding.getD .native
  indent := choices.indent.getD 4

end Choices

section

variable {choices : Choices} {before after : List Setting} {lead trail : List Text}
  (chosen : (before ++ after).Perm choices.listed) (leads : SetsAll lead before)
  (trails : SetsAll trail after)

include chosen leads trails

/-- A setting among the choices is one more thing that is set. -/
theorem ofWords_of_choices {words : List Text} {input : Setting} (h : Sets words input)
    (single : (Choices.switches ++ [input.switch]).Nodup) :
    Arguments.ofWords (lead ++ (words ++ trail)) = (Draft.set
      { json := choices.json, lineEnding := choices.lineEnding
        indent := choices.indent } input).arguments := by
  have all := leads.append (.cons h trails)
  have same : (before ++ input :: after).Perm (choices.listed ++ [input]) :=
    List.perm_middle.trans ((chosen.cons input).trans (List.perm_append_singleton _ _).symm)
  exact Choices.ofWords_eq all same (choices.pairwise_apart single)

theorem ofWords_execute (document : Text) :
    Arguments.ofWords (lead ++ ("--execute=" ++ document) :: trail) =
      .ok (choices.arguments none (some document)) := by
  have single : (Choices.switches ++ [Switch.valued .execute]).Nodup := by decide
  have named : (("execute" : Text), Switch.valued .execute) ∈ longNames := by decide +kernel
  have sets := Sets.attached named (.execute document)
  have spelled : ("--execute=" : Text) ++ document = "--" ++ ("execute" ++ '=' :: document) := by
    simp
  rw [spelled]
  exact ofWords_of_choices chosen leads trails sets single

theorem ofWords_file {path : Text} (nonempty : path ≠ []) (plain : path.head? ≠ some '-') :
    Arguments.ofWords (lead ++ path :: trail) = .ok (choices.arguments (some path) none) := by
  have single : (Choices.switches ++ [Switch.valued .file]).Nodup := by decide
  exact ofWords_of_choices chosen leads trails (.file nonempty plain) single

theorem ofWords_standardInput :
    Arguments.ofWords (lead ++ trail) = .ok (choices.arguments none none) := by
  have same : (before ++ after).Perm (choices.listed ++ []) := by rwa [List.append_nil]
  exact Choices.ofWords_eq (leads.append trails) same (choices.pairwise_apart (by decide))

end

/-- A run on a source with a document reports on the document. Since nothing is logged, the format
of the log does not matter. -/
theorem run_of_ofWords {choices : Choices} {words : List Text} {inputs : Inputs}
    {document : Text} {file execute : Option Text}
    (read : Arguments.ofWords words = .ok (choices.arguments file execute))
    (given : inputs.document (choices.arguments file execute).source = .ok document) :
    run words inputs = .ok (Report.ofDocument choices.settings document) := by
  let settings := (choices.arguments file execute).settings inputs.format
  have quiet := Report.ofDocument_of_quiet settings rfl document
  rw [run, read]
  change Except.ok (report _ inputs) = _
  rw [report, given]
  exact congrArg Except.ok quiet

/-- A document is reported on in the same way whether it is given on the command line, in a file
or on the standard input, at any place among the words that make the choices. If it is a request,
its query is printed and, if that is chosen, the request as JSON. Otherwise nothing is printed but
the error of the translation.

A text can be of any length here. From an indentation of `2 ^ 63` on there is no memory that could
hold the query, and such a run is not covered. -/
theorem run_eq_ofDocument {choices : Choices} {before after : List Setting}
    {lead trail : List Text} {path : Text} (chosen : (before ++ after).Perm choices.listed)
    (leads : SetsAll lead before) (trails : SetsAll trail after) (nonempty : path ≠ [])
    (plain : path.head? ≠ some '-') (document : Text) :
    let report := Report.ofDocument choices.settings document
    (∀ inputs, run (lead ++ ("--execute=" ++ document) :: trail) inputs = .ok report) ∧
    (∀ inputs : Inputs, inputs.file path = .ok (utf8 document) →
      run (lead ++ path :: trail) inputs = .ok report) ∧
    (∀ inputs : Inputs, inputs.standardInput = utf8 document →
      run (lead ++ trail) inputs = .ok report) ∧
    (report.exitCode = 0 ↔ ∃ request, Request.ofDocument document = .ok request) ∧
    (∀ request, Request.ofDocument document = .ok request →
      ∃ query, translate choices.settings.options document = .ok query ∧
        report = ⟨0, query ++ ['\n'] ++
          (if choices.json then ['\n'] ++ request.toJson.write .indented ++ ['\n'] else []), []⟩) ∧
    ∀ fault, Request.ofDocument document = .error fault →
      translate choices.settings.options document = .error fault ∧
        report = ⟨1, [], "Error: " ++ fault.message ++ ['\n']⟩ := by
  intro report
  have decoded : decoded (utf8 document) = .ok document := by
    rw [CommandLine.decoded, text?_utf8]
  have silent : choices.settings.logged document = [] := Settings.logged_of_quiet rfl document
  refine ⟨?_, ?_, ?_, ?_, ?_, ?_⟩
  · intro inputs
    exact run_of_ofWords (ofWords_execute chosen leads trails document) rfl
  · intro inputs held
    apply run_of_ofWords (ofWords_file chosen leads trails nonempty plain)
    exact bind_eq_ok_iff.mpr ⟨utf8 document, held, decoded⟩
  · intro inputs held
    apply run_of_ofWords (ofWords_standardInput chosen leads trails)
    change CommandLine.decoded inputs.standardInput = _
    rw [held, decoded]
  · constructor
    · intro succeeds
      cases read : Request.ofDocument document with
      | ok request => exact ⟨request, rfl⟩
      | error fault =>
          have failed : report.exitCode = 1 :=
            congrArg Report.exitCode (Report.ofDocument_of_error choices.settings read).2
          exact absurd (failed.symm.trans succeeds) (by decide)
    · rintro ⟨request, read⟩
      exact congrArg Report.exitCode (Report.ofDocument_of_ok choices.settings read).2
  · intro request read
    obtain ⟨translated, printed⟩ := Report.ofDocument_of_ok choices.settings read
    rw [silent] at printed
    exact ⟨_, translated, printed⟩
  · intro fault read
    obtain ⟨failed, printed⟩ := Report.ofDocument_of_error choices.settings read
    rw [silent, List.nil_append] at printed
    exact ⟨failed, printed⟩

/-- The indentation is chosen before the source, and all else behind it. -/
theorem run_eq_ofDocument_around :
    let lead : List Text := ["--indent", "+02"]
    let trail : List Text := ["--line-ending=crlf", "--json"]
    let path : Text := "a.xml"
    let document : Text := "<fetch><entity name='a'/></fetch>"
    let inputs : Inputs :=
      { standardInput := utf8 document, file := fun _ => .ok (utf8 document) }
    let report := Report.ofDocument { options := ⟨.returnLineFeed, 2⟩, json := true } document
    run (lead ++ ("--execute=" ++ document) :: trail) inputs = .ok report ∧
      run (lead ++ path :: trail) inputs = .ok report ∧
      run (lead ++ trail) inputs = .ok report ∧ report.exitCode = 0 := by
  intro lead trail path document inputs report
  have indent : SetsAll lead [.indent 2] := by
    have named : (("indent" : Text), Switch.valued .indent) ∈ longNames := by decide +kernel
    have read : readNumeral 10 indentLimit (dropPlus "+02") = .ok 2 := by decide +kernel
    obtain ⟨numeral, small⟩ := (readNumeral_eq_ok_iff (by decide)).mp read
    have spelled : lead = [("--" : Text) ++ "indent", "+02"] := by decide +kernel
    rw [spelled]
    exact .cons (.apart named (.indent numeral small) (by decide +kernel)) .nil
  have others : SetsAll trail [.lineEnding .returnLineFeed, .json] := by
    have ending : (("crlf" : Text), LineEnding.returnLineFeed) ∈ LineEnding.words := by
      decide +kernel
    have named : (("line-ending" : Text), Switch.valued .lineEnding) ∈ longNames := by
      decide +kernel
    have flag : (("json" : Text), Switch.flag .json) ∈ longNames := by decide +kernel
    have spelled : trail =
        [("--" : Text) ++ (("line-ending" : Text) ++ '=' :: "crlf"), ("--" : Text) ++ "json"] := by
      decide +kernel
    rw [spelled]
    exact .cons (.attached named (.lineEnding ending)) (.cons (.flag flag rfl) .nil)
  have chosen : ([Setting.indent 2] ++ [Setting.lineEnding .returnLineFeed, .json]).Perm
      (Choices.listed ⟨true, some .returnLineFeed, some 2⟩) := by decide
  have nonempty : path ≠ [] := by decide +kernel
  have plain : path.head? ≠ some '-' := by decide +kernel
  obtain ⟨inline, held, typed, succeeds, -⟩ :=
    run_eq_ofDocument chosen indent others nonempty plain document
  have reads : ∃ request, Request.ofDocument document = .ok request :=
    ⟨⟨0, false, ⟨"a", [], none, none, none⟩⟩, by decide +kernel⟩
  exact ⟨inline inputs, held inputs rfl, typed inputs rfl, succeeds.mpr reads⟩

end CommandLine

end FetchQuery
