import VersionRange.Comparator

/-!
# Journal

The few things that are worth noting while a range is read or dependencies are
checked.  Records are kept in the order in which they arise.
-/

namespace VersionRange

inductive JournalRecord
  /-- A range came down to this single comparator. -/
  | simplified (comparator : Comparator)
  /-- The installed version of a plugin could not be read. -/
  | ignoredInstalled (name : Value) (fault : VersionFault)

namespace JournalRecord

inductive Level
  | debug
  | warning
  deriving DecidableEq, Repr

def level : JournalRecord → Level
  | simplified _ => .debug
  | ignoredInstalled .. => .warning

/-- The line of a record: its level, the part of the program it comes from, and
its message. -/
def line : JournalRecord → String
  | simplified comparator =>
    "DEBUG npm_range.parsers.range: Range simplified to " ++ comparator.text
  | ignoredInstalled name fault =>
    "WARNING npm_range.validators.dependencies: Ignoring installed version of " ++ name.plain ++
      ": " ++ fault.message

end JournalRecord

abbrev Journal := List JournalRecord

/-- A computation that keeps a journal and may end in a fault.  What was noted
before the fault stays noted. -/
abbrev Noting := ExceptT Fault (StateM Journal)

namespace Noting

def note (record : JournalRecord) : Noting Unit :=
  modify fun journal => journal ++ [record]

/-- A computation without a journal. -/
def lift {α : Type} (outcome : Except Fault α) : Noting α :=
  match outcome with
  | .ok value => pure value
  | .error fault => throw fault

/-- The outcome from an empty journal, and the journal. -/
def collect {α : Type} (computation : Noting α) : Except Fault α × Journal :=
  computation.run.run []

end Noting

end VersionRange
