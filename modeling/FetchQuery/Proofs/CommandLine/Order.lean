import FetchQuery.Proofs.CommandLine.Sources

/-!
# The order of arguments does not matter

What a command line demands is set by words that stand in any order and in any of their
spellings. The arguments that come of them are those of the demands, with the defaults for what is
not demanded and with a bounded verbosity. A file together with a document to execute is a
conflict, wherever the two stand (`ofWords_of_demands`).

## Implementation notes

Only the verbosity can be set more than once. So the demands list it apart from the rest, in which
no option comes twice (`Demands.pairwise_apart_listed`).
-/

namespace FetchQuery

namespace CommandLine

open Text

/-- All that a command line demands: what it chooses, the documents that it names, and how often
it asks for more messages. -/
structure Demands extends Choices where
  file : Option Text := none
  execute : Option Text := none
  verbosity : Nat := 0
  deriving DecidableEq, Repr

namespace Demands

/-- The documents that are named. -/
def inputs (demands : Demands) : List Setting :=
  (demands.file.map .file).toList ++ (demands.execute.map .execute).toList

/-- What is set to meet the demands. -/
def listed (demands : Demands) : List Setting :=
  demands.toChoices.listed ++ (demands.inputs ++ List.replicate demands.verbosity .verbose)

/-- The arguments that meet the demands. What is not demanded has its default. -/
def arguments (demands : Demands) : Arguments where
  file := demands.file
  execute := demands.execute
  json := demands.json
  lineEnding := demands.lineEnding.getD .native
  indent := demands.indent.getD 4
  verbosity := min demands.verbosity 255

theorem map_switch_inputs (demands : Demands) :
    (demands.inputs.map Setting.switch).Sublist [.valued .file, .valued .execute] := by
  obtain ⟨choices, file, execute, verbosity⟩ := demands
  cases file <;> cases execute <;> simp [inputs, Setting.switch]

/-- The settings that meet the demands do not exclude each other. -/
theorem pairwise_apart_listed (demands : Demands) :
    demands.listed.Pairwise Setting.Apart := by
  have single : (Choices.switches ++ [Switch.valued .file, .valued .execute]).Nodup := by decide
  have others := demands.pairwise_apart
    (single.sublist (demands.map_switch_inputs.append_left Choices.switches))
  rw [listed, ← List.append_assoc]
  refine List.pairwise_append.mpr ⟨others, ?_, ?_⟩
  · exact List.pairwise_replicate.mpr (.inr (Setting.apart_verbose .verbose))
  · intro setting _ again member
    rw [List.eq_of_mem_replicate member]
    exact setting.apart_verbose

/-- The verbosity may as well be set before all else. -/
theorem perm_listed {demands : Demands} {settings : List Setting}
    (same : settings.Perm (demands.toChoices.listed ++ demands.inputs)) :
    (List.replicate demands.verbosity Setting.verbose ++ settings).Perm demands.listed := by
  rw [listed, ← List.append_assoc]
  exact List.perm_append_comm.trans (same.append_right _)

/-- All demands are met in the draft of their words, whatever the order of these. -/
theorem ofWords_eq {demands : Demands} {settings : List Setting} {words : List Text}
    (spelled : SetsAll words settings) (same : settings.Perm demands.listed) :
    Arguments.ofWords words = Draft.arguments {
      file := demands.file
      execute := demands.execute
      json := demands.json
      lineEnding := demands.lineEnding
      indent := demands.indent
      verbosity := min demands.verbosity verbosityLimit } := by
  rw [Choices.ofWords_eq spelled same demands.pairwise_apart_listed, List.foldl_append]
  obtain ⟨choices, file, execute, verbosity⟩ := demands
  cases file <;> cases execute <;> simp [inputs, Draft.set, Draft.foldl_set_verbose]

end Demands

/-- Words in any order, each setting in any of its spellings, give the arguments that meet the
demands. With a file and a document to execute there are no arguments and there is no run. -/
theorem ofWords_of_demands {demands : Demands} {settings : List Setting} {words : List Text}
    (spelled : SetsAll words settings) (same : settings.Perm demands.listed) :
    (demands.file = none ∨ demands.execute = none →
      Arguments.ofWords words = .ok demands.arguments) ∧
    ∀ path document, demands.file = some path → demands.execute = some document →
      Arguments.ofWords words = .error .conflict ∧
        ∀ inputs, run words inputs = .error .conflict := by
  have read := Demands.ofWords_eq spelled same
  constructor
  · intro single
    have alone : (demands.file.isSome && demands.execute.isSome) = false := by
      rcases single with none | none
      · rw [none]
        rfl
      · rw [none]
        exact Bool.and_false _
    rw [read, Draft.arguments, alone]
    rfl
  · intro path document named given
    have both : (demands.file.isSome && demands.execute.isSome) = true := by
      rw [named, given]
      rfl
    have refused : Arguments.ofWords words = .error .conflict := by
      rw [read, Draft.arguments, both]
      rfl
    refine ⟨refused, fun inputs => ?_⟩
    rw [run, refused]
    rfl

/-- The verbosity stops at its limit, and a document may look like an option. With a file besides
there is a conflict, wherever the file stands. -/
theorem ofWords_of_demands_saturated :
    let verbose : List Text := (List.replicate 300 [ofString "-v"]).flatten
    let words : List Text := ["--execute=--json", "--json", "--indent", "007"]
    Arguments.ofWords (verbose ++ words) =
        .ok { execute := some "--json", json := true, indent := 7, verbosity := 255 } ∧
      Arguments.ofWords (verbose ++ ofString "a=b.xml" :: words) = .error .conflict := by
  intro verbose words
  have spelled : words = [("--" : Text) ++ (("execute" : Text) ++ '=' :: "--json"),
      ("--" : Text) ++ "json", ("--" : Text) ++ "indent", "007"] := by decide +kernel
  have execute : (("execute" : Text), Switch.valued .execute) ∈ longNames := by decide +kernel
  have json : (("json" : Text), Switch.flag .json) ∈ longNames := by decide +kernel
  have indent : (("indent" : Text), Switch.valued .indent) ∈ longNames := by decide +kernel
  have read : readNumeral 10 indentLimit (dropPlus "007") = .ok 7 := by decide +kernel
  obtain ⟨numeral, small⟩ := (readNumeral_eq_ok_iff (by decide)).mp read
  have nonempty : ("a=b.xml" : Text) ≠ [] := by decide +kernel
  have plain : ("a=b.xml" : Text).head? ≠ some '-' := by decide +kernel
  have more := SetsAll.replicate Sets.verbose 300
  let settings : List Setting := [.execute "--json", .json, .indent 7]
  have others : SetsAll words settings := by
    rw [spelled]
    exact .cons (.attached execute (.execute "--json")) (.cons (.flag json rfl)
      (.cons (.apart indent (.indent numeral small) (by decide +kernel)) .nil))
  let demands : Demands := ⟨⟨true, none, some 7⟩, none, some "--json", 300⟩
  let both : Demands := { demands with file := some "a=b.xml" }
  have same : settings.Perm (demands.toChoices.listed ++ demands.inputs) := by decide +kernel
  have same' : (Setting.file "a=b.xml" :: settings).Perm (both.toChoices.listed ++ both.inputs) := by
    decide +kernel
  have accepted := ofWords_of_demands (more.append others) (Demands.perm_listed same)
  have refused := ofWords_of_demands (more.append (.cons (.file nonempty plain) others))
    (Demands.perm_listed same')
  have saturated : demands.arguments =
      { execute := some "--json", json := true, indent := 7, verbosity := 255 } := by
    decide +kernel
  rw [← saturated]
  exact ⟨accepted.1 (.inl rfl), (refused.2 _ _ rfl rfl).1⟩

end CommandLine

end FetchQuery
