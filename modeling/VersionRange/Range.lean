import VersionRange.Group
import VersionRange.Journal

/-!
# Ranges

A range is a list of groups, of which one must admit a version.  A range text has
its groups between double bars.  After duplicates within each group are dropped,
a range comes down to a single comparator if one of its groups admits every
version, or else if one of its comparators admits none.
-/

namespace VersionRange

structure Range where
  groups : List (List Comparator)
  deriving DecidableEq, Repr

namespace Range

/-- All comparators of a group admit the candidate; each has the group for siblings. -/
def groupIncludes (group : List Comparator) (candidate : Version) : Bool :=
  group.all fun c => c.includes candidate group

/-- Some group admits the candidate. -/
def includes (range : Range) (candidate : Version) : Bool :=
  range.groups.any fun group => groupIncludes group candidate

/-- Membership of an arbitrary value: only versions are members. -/
def contains (range : Range) : Value → Bool
  | .version v => range.includes v
  | _ => false

/-- The text of a group. -/
def groupText (group : List Comparator) : String :=
  " ".intercalate (group.map Comparator.text)

def text (range : Range) : String :=
  " || ".intercalate (range.groups.map groupText)

/-- The parts of a text between double bars, from left to right. -/
def splitGroups : List Char → List (List Char)
  | '|' :: '|' :: rest => [] :: splitGroups rest
  | c :: rest => (splitGroups rest).modifyHead (c :: ·)
  | [] => [[]]

/-- The first group that consists of all-inclusive comparators.  A group without
comparators does so, but has no comparator to come down to. -/
def allInclusive? (groups : List (List Comparator)) : Except Fault (Option Comparator) :=
  match groups.find? fun group => group.all Comparator.isAllInclusive with
  | none => .ok none
  | some [] => .error .emptyGroup
  | some (c :: _) => .ok (some c)

/-- What the groups come down to, with a record if they are not already that. -/
def simplify (groups : List (List Comparator)) : Except Fault (Range × Option JournalRecord) := do
  match ← allInclusive? groups with
  | some c =>
    let alreadySimple := groups.length ≤ 1 && (groups.head?.getD []).length ≤ 1
    return (⟨[[c]]⟩, if alreadySimple then none else some (.simplified c))
  | none =>
    match groups.flatten.find? Comparator.isAllExclusive with
    | some c => return (⟨[[c]]⟩, some (.simplified c))
    | none => return (⟨groups⟩, none)

/-- Reads the groups of a range and drops duplicates within each. -/
def parseGroups (options : ParseOptions) (parts : List (List Char)) :
    Except Fault (List (List Comparator)) :=
  parts.mapM fun part =>
    (Group.parse options part).map (distinctBy Comparator.interchangeable)

/-- Reads a range text, with the record of its simplification. -/
def parseRecorded (options : ParseOptions) (text : String) :
    Except Fault (Range × Option JournalRecord) :=
  let parts := splitGroups text.toList
  if parts.all allBlank then .ok (⟨[[.any options]]⟩, none)
  else do simplify (← parseGroups options parts)

/-- Reads a range text. -/
def parse (options : ParseOptions) (text : String) : Except Fault Range :=
  (parseRecorded options text).map Prod.fst

/-- Reads a range text and notes its simplification. -/
def parseNoting (options : ParseOptions) (text : String) : Noting Range := do
  let (range, record) ← Noting.lift (parseRecorded options text)
  if let some record := record then Noting.note record
  return range

/-- Reads a range from a value, which must be a text. -/
def ofValue (options : ParseOptions) : Value → Noting Range
  | .text text => parseNoting options text
  | other => throw (.range (.notText other.kind))

end Range

end VersionRange
