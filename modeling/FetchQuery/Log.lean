import FetchQuery.Text.Basic

/-!
# The log

What happens while a document is translated is told of in events. An event has a level, and the
verbosity that is asked for decides which levels are written. Where none is asked for, nothing is
written, since no event is a warning (`Log.write_of_quiet`).

## Implementation notes

What is written about an event can show the time and colours, which are not known here. So it is a
parameter of a log, of which only `Event.line` is given.
-/

namespace FetchQuery

namespace Log

/-- How much an event matters, from what matters most. -/
inductive Level where
  | warning
  | info
  | debug
  | trace
  deriving DecidableEq, Repr

namespace Level

/-- How many levels matter more. -/
def rank : Level → Nat
  | warning => 0
  | info => 1
  | debug => 2
  | trace => 3

/-- The last level that is written at a verbosity. -/
def ofVerbosity : Nat → Level
  | 0 => warning
  | 1 => info
  | 2 => debug
  | _ => trace

/-- The word for a level. -/
def word : Level → Text
  | warning => "WARN"
  | info => "INFO"
  | debug => "DEBUG"
  | trace => "TRACE"

end Level

/-- What is told of. -/
inductive Event where
  /-- An entity has been read, with a number of columns and of links. -/
  | entityRead (name : Text) (attributes links : Nat)
  | requestRead (entity : Text) (rowLimit : UInt32) (noLock : Bool)
  /-- The query for an entity has been written, in a number of bytes. -/
  | queryWritten (entity : Text) (bytes : Nat)
  /-- A document has been translated, with a number of entities in it. -/
  | documentTranslated (root : Text) (entities : Nat)
  /-- A linked entity is no part of the query. -/
  | linkNotWritten (entity : Text)
  deriving DecidableEq, Repr

namespace Event

/-- The level of an event. -/
def level : Event → Level
  | entityRead .. => .trace
  | requestRead .. => .debug
  | queryWritten .. => .debug
  | documentTranslated .. => .info
  | linkNotWritten .. => .debug

/-- What has happened. -/
def message : Event → Text
  | entityRead .. => "parsed entity"
  | requestRead .. => "parsed fetch request"
  | queryWritten .. => "rendered query"
  | documentTranslated .. => "translated fetch document"
  | linkNotWritten .. => "linked entity is not rendered"

/-- The values that belong to an event, with their names. -/
def fields : Event → List (Text × Text)
  | entityRead name attributes links =>
      [("entity", name), ("attributes", Text.decimal attributes), ("links", Text.decimal links)]
  | requestRead entity rowLimit noLock =>
      [("entity", entity), ("top", Text.decimal rowLimit.toNat),
        ("no_lock", if noLock then "true" else "false")]
  | queryWritten entity bytes => [("entity", entity), ("bytes", Text.decimal bytes)]
  | documentTranslated root entities => [("root", root), ("entities", Text.decimal entities)]
  | linkNotWritten entity => [("entity", entity)]

/-- The line on an event, without a time. The values stand in it as they are. -/
def line (event : Event) : Text :=
  event.level.word ++ ' ' :: event.message ++
    (event.fields.flatMap fun field => ' ' :: field.1 ++ '=' :: field.2) ++ ['\n']

theorem rank_level_pos (event : Event) : 0 < event.level.rank := by
  cases event <;> exact Nat.succ_pos _

end Event

/-- What is written about an event. -/
abbrev Format := Event → Text

end Log

/-- Which events are written, and how. -/
structure Log where
  /-- The last level that is written. -/
  threshold : Log.Level := .warning
  format : Log.Format := Log.Event.line

namespace Log

/-- Events that are written. -/
def shows (log : Log) (event : Event) : Bool :=
  event.level.rank ≤ log.threshold.rank

/-- What is written about some events. -/
def write (log : Log) (events : List Event) : Text :=
  (events.filter log.shows).flatMap log.format

theorem write_eq_nil {log : Log} {events : List Event}
    (hidden : ∀ event ∈ events, log.threshold.rank < event.level.rank) : log.write events = [] := by
  have none : events.filter log.shows = [] := by
    rw [List.filter_eq_nil_iff]
    intro event present
    simp [shows, hidden event present]
  rw [write, none]
  rfl

/-- Nothing is written where only warnings are. -/
theorem write_of_quiet {log : Log} (quiet : log.threshold = .warning) (events : List Event) :
    log.write events = [] := by
  apply write_eq_nil
  intro event _
  rw [quiet]
  exact event.rank_level_pos

end Log

end FetchQuery
