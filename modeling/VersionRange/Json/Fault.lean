/-!
# Places where a JSON text goes wrong

A text is refused at one offset, counted in characters from the start.  The
message also gives the line and the column, both counted from one.
-/

namespace VersionRange

/-- What the reader expected, or met, at the offset. -/
inductive JsonProblem
  | byteOrderMark
  | expectingValue
  | expectingName
  | expectingColon
  | expectingComma
  | extraData
  | controlCharacter
  | invalidEscape
  | invalidUnicodeEscape
  | unterminated
  deriving DecidableEq, Repr

structure JsonFault where
  problem : JsonProblem
  offset : Nat
  line : Nat
  column : Nat
  deriving DecidableEq, Repr

def JsonProblem.text : JsonProblem → String
  | byteOrderMark => "Unexpected UTF-8 BOM (decode using utf-8-sig)"
  | expectingValue => "Expecting value"
  | expectingName => "Expecting property name enclosed in double quotes"
  | expectingColon => "Expecting ':' delimiter"
  | expectingComma => "Expecting ',' delimiter"
  | extraData => "Extra data"
  | controlCharacter => "Invalid control character at"
  | invalidEscape => "Invalid \\escape"
  | invalidUnicodeEscape => "Invalid \\uXXXX escape"
  | unterminated => "Unterminated string starting at"

/-- What other values stand in. -/
inductive JsonContainer
  | list
  | object
  deriving DecidableEq, Repr

def JsonContainer.name : JsonContainer → String
  | list => "array"
  | object => "object"

/-- The fault at an offset of `text`. -/
def JsonFault.at (text : List Char) (problem : JsonProblem) (offset : Nat) : JsonFault :=
  let before := text.take offset
  { problem := problem
    offset := offset
    line := before.count '\n' + 1
    column := (before.reverse.takeWhile (· ≠ '\n')).length + 1 }

def JsonFault.message (fault : JsonFault) : String :=
  fault.problem.text ++ ": line " ++ fault.line.repr ++ " column " ++ fault.column.repr ++
    " (char " ++ fault.offset.repr ++ ")"

end VersionRange
