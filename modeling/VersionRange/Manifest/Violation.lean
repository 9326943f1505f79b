import VersionRange.Value

/-!
# Violations of the manifest schema

A violation names the place in the document by the keys and positions that lead
to it, and says what is wrong there.
-/

namespace VersionRange

/-- One step on the way to a place in a document. -/
inductive PathStep
  | key (value : Value)
  | index (position : Nat)

def PathStep.text : PathStep → String
  | key value => value.plain
  | index position => String.ofList (numeralChars position)

/-- The sorts of value that the schema asks for. -/
inductive ExpectedSort
  | text
  | list
  | object
  deriving DecidableEq, Repr

def ExpectedSort.name : ExpectedSort → String
  | text => "string"
  | list => "array"
  | object => "object"

inductive ViolationProblem
  | wrongSort (value : Value) (expected : ExpectedSort)
  | missing (name : String)
  | empty (value : Value)

def ViolationProblem.text : ViolationProblem → String
  | wrongSort value expected =>
    value.literal ++ " is not of type " ++ quoted expected.name
  | missing name => quoted name ++ " is a required property"
  | empty value => value.literal ++ " should be non-empty"

/-- The value that the problem is about; what is missing is about a key. -/
def ViolationProblem.value : ViolationProblem → Value
  | wrongSort value _ => value
  | missing name => .text name
  | empty value => value

structure Violation where
  path : List PathStep
  problem : ViolationProblem

/-- One line of a report: the place, or `<root>` where the place has no text, and
the problem. -/
def Violation.line (violation : Violation) : String :=
  let place := "/".intercalate (violation.path.map PathStep.text)
  "- " ++ (if place.isEmpty then "<root>" else place) ++ ": " ++ violation.problem.text

end VersionRange
