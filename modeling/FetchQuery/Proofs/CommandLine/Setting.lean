import Mathlib.Data.List.Pairwise
import FetchQuery.CommandLine.Arguments
import FetchQuery.Proofs.Outcome
import FetchQuery.Proofs.Text.Numeral
import FetchQuery.Proofs.Text.Span

/-!
# What the words of a command line set

A command line sets one thing after another, each by a word or by two. The words before leave a
draft, though a value of theirs may not have been judged yet (`Reading.settle`). What is set next
is set in this draft (`exists_readWords_of_sets`), unless it has been set before. So the words of
settings that exclude no other, in any order, give the draft in which all of them are set
(`Arguments.ofWords_of_setsAll`), and the order does not matter
(`Setting.foldl_set_eq_of_perm`).
-/

namespace FetchQuery

namespace CommandLine

open Text Outcome

/-- Something that the words of a command line set. -/
inductive Setting where
  | json
  | verbose
  | lineEnding (ending : LineEnding)
  | indent (spaces : Nat)
  | execute (document : Text)
  | file (path : Text)
  deriving DecidableEq, Repr

/-- What is set, without its value. -/
def Setting.switch : Setting → Switch
  | json => .flag .json
  | verbose => .flag .verbose
  | lineEnding _ => .valued .lineEnding
  | indent _ => .valued .indent
  | execute _ => .valued .execute
  | file _ => .valued .file

/-- Both can be set on one command line. Only the verbosity can be set more than once. -/
def Setting.Apart (first second : Setting) : Prop :=
  first.switch = second.switch → first = verbose

/-- A value of a slot, and what is set by it. -/
inductive Denotes : Slot → Text → Setting → Prop
  | file {path : Text} (nonempty : path ≠ []) : Denotes .file path (.file path)
  | execute (document : Text) : Denotes .execute document (.execute document)
  | lineEnding {word : Text} {ending : LineEnding} (named : (word, ending) ∈ LineEnding.words) :
      Denotes .lineEnding word (.lineEnding ending)
  | indent {word : Text} {spaces : Nat} (numeral : IsNumeral 10 (dropPlus word) spaces)
      (small : spaces ≤ indentLimit) : Denotes .indent word (.indent spaces)

/-- Words that set something. A value stands behind an equals sign, or it is a word of its own
that does not start with a hyphen. -/
inductive Sets : List Text → Setting → Prop
  | flag {name : Text} {flag : Flag} {setting : Setting}
      (named : (name, Switch.flag flag) ∈ longNames) (sets : setting.switch = .flag flag) :
      Sets ["--" ++ name] setting
  | verbose : Sets ["-v"] .verbose
  | attached {name value : Text} {slot : Slot} {setting : Setting}
      (named : (name, Switch.valued slot) ∈ longNames) (denotes : Denotes slot value setting) :
      Sets ["--" ++ (name ++ '=' :: value)] setting
  | apart {name value : Text} {slot : Slot} {setting : Setting}
      (named : (name, Switch.valued slot) ∈ longNames) (denotes : Denotes slot value setting)
      (plain : value.head? ≠ some '-') : Sets ["--" ++ name, value] setting
  | execute {document : Text} (plain : document.head? ≠ some '-') :
      Sets ["-e", document] (.execute document)
  | file {path : Text} (nonempty : path ≠ []) (plain : path.head? ≠ some '-') :
      Sets [path] (.file path)

/-- Words that set one thing after another. -/
inductive SetsAll : List Text → List Setting → Prop
  | nil : SetsAll [] []
  | cons {words more : List Text} {setting : Setting} {settings : List Setting}
      (first : Sets words setting) (later : SetsAll more settings) :
      SetsAll (words ++ more) (setting :: settings)

theorem SetsAll.append {words more : List Text} {settings others : List Setting}
    (h : SetsAll words settings) (h' : SetsAll more others) :
    SetsAll (words ++ more) (settings ++ others) := by
  induction h with
  | nil => exact h'
  | @cons words _ setting _ first _ ih =>
      rw [List.append_assoc]
      exact .cons first ih

theorem SetsAll.replicate {words : List Text} {setting : Setting} (h : Sets words setting)
    (count : Nat) :
    SetsAll (List.replicate count words).flatten (List.replicate count setting) := by
  induction count with
  | zero => exact .nil
  | succ count ih => exact .cons h ih

theorem LineEnding.lookup_words :
    ∀ entry ∈ LineEnding.words, LineEnding.words.lookup entry.1 = some entry.2 := by
  decide +kernel

/-! ### Setting something in a draft -/

namespace Draft

/-- A draft in which something is set. -/
def set (draft : Draft) : Setting → Draft
  | .json => { draft with json := true }
  | .verbose => { draft with verbosity := min (draft.verbosity + 1) verbosityLimit }
  | .lineEnding ending => { draft with lineEnding := some ending }
  | .indent spaces => { draft with indent := some spaces }
  | .execute document => { draft with execute := some document }
  | .file path => { draft with file := some path }

/-- Whether something has been set that cannot be set again. -/
def has (draft : Draft) : Switch → Bool
  | .flag .json => draft.json
  | .flag _ => false
  | .valued .lineEnding => draft.lineEnding.isSome
  | .valued .indent => draft.indent.isSome
  | .valued .execute => draft.execute.isSome
  | .valued .file => draft.file.isSome

/-- What is set leaves room for all that it does not exclude. -/
theorem has_set {draft : Draft} {setting other : Setting} (free : draft.has other.switch = false)
    (apart : setting.Apart other) : (draft.set setting).has other.switch = false := by
  cases setting with
  | verbose => cases other <;> exact free
  | _ =>
      cases other with
      | verbose => rfl
      | _ => first | exact free | exact nomatch apart rfl

/-- The verbosity counts how often it is set, up to its limit. -/
theorem foldl_set_verbose (count : Nat) {draft : Draft}
    (small : draft.verbosity ≤ verbosityLimit) :
    (List.replicate count Setting.verbose).foldl set draft =
      { draft with verbosity := min (draft.verbosity + count) verbosityLimit } := by
  induction count generalizing draft with
  | zero => simp [Nat.min_eq_left small]
  | succ count ih =>
      have counted : min (min (draft.verbosity + 1) verbosityLimit + count) verbosityLimit =
          min (draft.verbosity + (count + 1)) verbosityLimit := by omega
      rw [List.replicate_succ, List.foldl_cons, ih (Nat.min_le_right _ _)]
      simp only [set, counted]

/-- A value that can be set is set. -/
theorem accept_of_denotes {draft : Draft} {slot : Slot} {value : Text} {setting : Setting}
    (h : Denotes slot value setting) (free : draft.has setting.switch = false) :
    draft.accept slot value = .ok (draft.set setting) := by
  cases h with
  | file nonempty => simp [accept, nonempty, set]
  | execute document =>
      simp only [has, Setting.switch] at free
      simp [accept, free, set]
  | @lineEnding word ending named =>
      have found := LineEnding.lookup_words _ named
      simp only [has, Setting.switch] at free
      simp [accept, free, found, set]
  | indent numeral small =>
      have number := (readNumeral_eq_ok_iff (by decide)).mpr ⟨numeral, small⟩
      simp only [has, Setting.switch] at free
      simp [accept, free, readUnsigned, number, set]

/-- A flag that can be set is set. -/
theorem raise_of_switch {draft : Draft} {flag : Flag} {setting : Setting}
    (h : setting.switch = .flag flag) (free : draft.has setting.switch = false) :
    draft.raise flag = .ok (draft.set setting) := by
  cases setting with
  | json =>
      cases h
      simp only [has, Setting.switch] at free
      simp [raise, free, set]
  | verbose =>
      cases h
      rfl
  | _ => exact nomatch h

/-- A file comes into a draft only as a value. -/
theorem isSome_file_of_accept {draft after : Draft} {slot : Slot} {value : Text}
    (h : draft.accept slot value = .ok after) :
    after.file.isSome = (draft.file.isSome || decide (slot = .file)) := by
  revert h
  fun_cases accept draft slot value with
  -- Nothing is set where there is a fault.
  | case1 | case3 | case5 | case7 | case8 | case10 => exact nofun
  | _ =>
      intro h
      cases h
      simp

end Draft

namespace Setting

/-- It does not matter which of two settings is set first. -/
def Commute (first second : Setting) : Prop :=
  ∀ draft : Draft, (draft.set first).set second = (draft.set second).set first

instance : Std.Symm Commute := ⟨fun _ _ h draft => (h draft).symm⟩

/-- Settings that do not exclude each other can be set in any order. -/
theorem Apart.commute {first second : Setting} (h : first.Apart second) :
    first.Commute second := by
  intro draft
  cases first with
  | verbose => cases second <;> rfl
  | _ => cases second <;> first | rfl | exact nomatch h rfl

/-- Whatever is set, the verbosity can be set besides. -/
theorem apart_verbose (setting : Setting) : setting.Apart verbose := by
  intro same
  cases setting with
  | verbose => rfl
  | _ => exact nomatch same

theorem Apart.symm {first second : Setting} (h : first.Apart second) : second.Apart first := by
  intro same
  have isVerbose := h same.symm
  subst isVerbose
  exact second.apart_verbose same

/-- Settings of different things do not exclude each other. -/
theorem pairwise_apart {settings : List Setting} (h : (settings.map switch).Nodup) :
    settings.Pairwise Apart :=
  (List.pairwise_map.mp h).imp fun different same => absurd same different

/-- The order of settings does not matter. -/
theorem foldl_set_eq_of_perm {settings others : List Setting} (same : settings.Perm others)
    (apart : settings.Pairwise Apart) (draft : Draft) :
    settings.foldl Draft.set draft = others.foldl Draft.set draft := by
  have commute := (apart.imp Apart.commute).forall_of_forall fun _ _ _ => rfl
  apply same.foldl_eq'
  intro first hfirst second hsecond draft
  exact commute hfirst hsecond draft

end Setting

/-! ### Reading the words -/

namespace Reading

variable {reading : Reading} {draft : Draft} {slot : Slot} {switch : Switch}
  {name value word : Text} {words : List Text} {setting : Setting}

/-- A reading has a file exactly if its draft is to have one. -/
theorem hasFile_of_settle (settled : reading.settle = .ok draft) :
    reading.hasFile = draft.file.isSome := by
  unfold settle at settled
  unfold hasFile
  split at settled
  · next nothing =>
    cases settled
    simp [nothing]
  · exact nomatch settled
  · next slot value held =>
    rw [held, Draft.isSome_file_of_accept settled]
    rfl

/-- A word that starts with no hyphen is no option. -/
theorem readWords_plain (plain : word.head? ≠ some '-') :
    reading.readWords (word :: words) =
      reading.readPlain word >>= fun later => later.readWords words := by
  rw [readWords.eq_def]
  split <;> simp_all

/-- A long name stands behind two hyphens. -/
theorem readWords_long (nonempty : word ≠ []) :
    reading.readWords (("--" ++ word) :: words) =
      reading.readLong word >>= fun later => later.readWords words := by
  obtain ⟨c, word, rfl⟩ := List.exists_cons_of_ne_nil nonempty
  simp [readWords]

theorem longName_spec : ∀ entry ∈ longNames, entry.1 ≠ [] ∧
    longNames.lookup entry.1 = some entry.2 ∧ entry.1.all (· != '=') = true := by
  decide +kernel

theorem letter_spec : ∀ entry ∈ letters,
    entry.1 ≠ '-' ∧ letters.lookup entry.1 = some entry.2 := by
  decide

/-- Reads an option, with or without an attached value. -/
def readSwitch (reading : Reading) (attached : Option Text) :
    Switch → Except ArgumentFault Reading
  | .valued slot => reading.readOption slot attached
  | .flag flag =>
      if attached.isSome then .error .unneededValue else reading.readFlag flag

/-- A long name reaches to the next equals sign. -/
theorem readWords_longName {rest : Text} (named : (name, switch) ∈ longNames)
    (stop : ∀ c ∈ rest.head?, (c != '=') = false) :
    reading.readWords (("--" ++ (name ++ rest)) :: words) =
      reading.readSwitch (attachedToName rest) switch >>= fun later => later.readWords words := by
  obtain ⟨nonempty, found, plain⟩ := longName_spec _ named
  rw [List.all_eq_true] at plain
  rw [readWords_long (List.append_ne_nil_of_left_ne_nil nonempty rest), readLong,
    takeWhile_append_of_stop plain stop, dropWhile_append_of_stop plain stop, found]
  cases switch <;> rfl

/-- A letter stands behind one hyphen. -/
theorem readWords_letter {letter : Char} (named : (letter, switch) ∈ letters) :
    reading.readWords (['-', letter] :: words) =
      reading.readSwitch none switch >>= fun later => later.readWords words := by
  obtain ⟨other, found⟩ := letter_spec _ named
  have single : reading.readWords (['-', letter] :: words) =
      reading.readLetters [letter] >>= fun later => later.readWords words := by
    simp [readWords, other]
  rw [single, readLetters, found]
  cases switch with
  | valued slot => rfl
  | flag flag => exact congrArg (· >>= _) (bind_pure (reading.readFlag flag))

/-- A flag is heeded when what was held back before it has been judged. -/
theorem readFlag_of_settle {flag : Flag} (settled : reading.settle = .ok draft)
    (sets : setting.switch = .flag flag) (free : draft.has setting.switch = false) :
    reading.readFlag flag = .ok { draft := draft.set setting } :=
  bind_eq_ok_iff.mpr ⟨draft, settled, bind_eq_ok_iff.mpr
    ⟨draft.set setting, draft.raise_of_switch sets free, rfl⟩⟩

/-- An attached value is judged at once. -/
theorem readOption_attached (settled : reading.settle = .ok draft)
    (denotes : Denotes slot value setting) (free : draft.has setting.switch = false) :
    reading.readOption slot (some value) = .ok { draft := draft.set setting } :=
  bind_eq_ok_iff.mpr ⟨draft, settled, bind_eq_ok_iff.mpr
    ⟨draft.set setting, draft.accept_of_denotes denotes free, rfl⟩⟩

/-- A value that is to come is waited for. -/
theorem readOption_apart (settled : reading.settle = .ok draft) :
    reading.readOption slot none = .ok ⟨draft, some ⟨slot, none⟩⟩ :=
  bind_eq_ok_iff.mpr ⟨draft, settled, rfl⟩

/-- A first file is held back. -/
theorem readPlain_file (settled : reading.settle = .ok draft)
    (free : draft.has (.valued .file) = false) :
    reading.readPlain word = .ok ⟨draft, some ⟨.file, some word⟩⟩ := by
  have single : reading.hasFile = false := (hasFile_of_settle settled).trans free
  unfold readPlain
  split
  · next slot missing =>
    rw [settle, missing] at settled
    exact nomatch settled
  · rw [readFile, single, settled]
    rfl

/-- The words of a setting set it in the draft that the words before leave, if it is free. -/
theorem exists_readWords_of_sets {set : List Text} (h : Sets set setting)
    (settled : reading.settle = .ok draft) (free : draft.has setting.switch = false)
    (words : List Text) :
    ∃ later : Reading, reading.readWords (set ++ words) = later.readWords words ∧
      later.settle = .ok (draft.set setting) := by
  have alone : attachedToName [] = none := rfl
  -- A value that is a word of its own, and a file, are held back. They are judged by what settles
  -- the reading behind them.
  cases h with
  | @flag name flag _ named sets =>
      have read := @readWords_longName reading _ name words [] named nofun
      rw [List.append_nil, alone, readSwitch, Option.isSome_none,
        readFlag_of_settle settled sets free] at read
      exact ⟨{ draft := draft.set setting }, read, rfl⟩
  | verbose =>
      have named : ('v', Switch.flag .verbose) ∈ letters := by decide
      have read := @readWords_letter reading _ words _ named
      rw [readSwitch, Option.isSome_none, readFlag_of_settle settled rfl free] at read
      rw [ofString_eq]
      exact ⟨{ draft := draft.set .verbose }, read, rfl⟩
  | @attached name value slot _ named denotes =>
      have read := @readWords_longName reading _ name words ('=' :: value) named (by simp)
      rw [attachedToName, readSwitch, readOption_attached settled denotes free] at read
      exact ⟨{ draft := draft.set setting }, read, rfl⟩
  | @apart name value slot _ named denotes plain =>
      have read := @readWords_longName reading _ name (value :: words) [] named nofun
      rw [List.append_nil, alone, readSwitch, readOption_apart settled] at read
      exact ⟨⟨draft, some ⟨slot, some value⟩⟩, read.trans (readWords_plain plain),
        draft.accept_of_denotes denotes free⟩
  | @execute document plain =>
      have named : ('e', Switch.valued .execute) ∈ letters := by decide
      have read := @readWords_letter reading _ (document :: words) _ named
      rw [readSwitch, readOption_apart settled] at read
      rw [ofString_eq]
      exact ⟨⟨draft, some ⟨.execute, some document⟩⟩, read.trans (readWords_plain plain),
        draft.accept_of_denotes (.execute document) free⟩
  | @file path nonempty plain =>
      have read := @readWords_plain reading path words plain
      rw [readPlain_file settled free] at read
      exact ⟨⟨draft, some ⟨.file, some path⟩⟩, read,
        draft.accept_of_denotes (.file nonempty) free⟩

/-- So do the words of settings one after another, if they do not exclude each other. -/
theorem exists_readWords_of_setsAll {settings : List Setting} (h : SetsAll words settings)
    (apart : settings.Pairwise Setting.Apart) (settled : reading.settle = .ok draft)
    (free : ∀ setting ∈ settings, draft.has setting.switch = false) :
    ∃ later : Reading, reading.readWords words = .ok later ∧
      later.settle = .ok (settings.foldl Draft.set draft) := by
  -- What carries the induction is the draft that the words so far leave, not the reading.
  induction h generalizing reading draft with
  | nil => exact ⟨reading, rfl, settled⟩
  | @cons words more setting settings first later ih =>
      obtain ⟨excludes, apart⟩ := List.pairwise_cons.mp apart
      obtain ⟨here, elsewhere⟩ := List.forall_mem_cons.mp free
      obtain ⟨middle, read, settled⟩ := exists_readWords_of_sets first settled here more
      have room : ∀ other ∈ settings, (draft.set setting).has other.switch = false :=
        fun other member => Draft.has_set (elsewhere other member) (excludes other member)
      obtain ⟨last, read', settled'⟩ := ih apart settled room
      exact ⟨last, read.trans read', settled'⟩

end Reading

/-- The words of settings that do not exclude each other give the arguments of the draft in which
all of them are set. -/
theorem Arguments.ofWords_of_setsAll {words : List Text} {settings : List Setting}
    (h : SetsAll words settings) (apart : settings.Pairwise Setting.Apart) :
    Arguments.ofWords words = (settings.foldl Draft.set {}).arguments := by
  have free : ∀ setting ∈ settings, Draft.has {} setting.switch = false := by
    intro setting _
    cases setting <;> rfl
  obtain ⟨reading, read, settled⟩ :=
    @Reading.exists_readWords_of_setsAll {} {} words settings h apart rfl free
  rw [ofWords, read]
  exact congrArg (· >>= Draft.arguments) settled

end CommandLine

end FetchQuery
