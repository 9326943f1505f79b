import VersionRange.Text.Blank
import VersionRange.Comparator
import VersionRange.Partial

/-!
# Groups of comparators

A group is a list of items that must all admit a version.  Items are separated by
blanks and commas; blanks behind an operator are dropped, so an operator and its
operand form one token.  An item is a partial version behind an optional operator,
or two partial versions around a hyphen that stands alone.  Every item expands to
primitive comparators.
-/

namespace VersionRange

/-- The operators of items: the primitive ones, and the two shorthands. -/
inductive ItemOperator
  | primitive (op : Operator)
  | tilde
  | caret
  deriving DecidableEq, Repr

namespace Group

/-- The characters that an operator can end in. -/
def isOperatorChar (c : Char) : Bool :=
  c = '<' || c = '>' || c = '=' || c = '~' || c = '^'

/-- Drops the blanks that follow an operator character; `after` tells whether the
text follows one directly or at a distance of blanks only. -/
def joinOperators (after : Bool) : List Char → List Char
  | [] => []
  | c :: rest =>
    if after && isBlank c then joinOperators true rest
    else c :: joinOperators (isOperatorChar c) rest

/-- The tokens of a group. -/
def tokens (group : List Char) : List (List Char) :=
  words (joinOperators false (group.map fun c => if c = ',' then ' ' else c))

/-- The longest operator at the front of a token, and what follows it. -/
def readOperator : List Char → ItemOperator × List Char
  | '<' :: '=' :: rest => (.primitive .lessEqual, rest)
  | '>' :: '=' :: rest => (.primitive .greaterEqual, rest)
  | '<' :: rest => (.primitive .less, rest)
  | '>' :: rest => (.primitive .greater, rest)
  | '=' :: rest => (.primitive .equal, rest)
  | '~' :: '>' :: rest => (.tilde, rest)
  | '~' :: rest => (.tilde, rest)
  | '^' :: rest => (.caret, rest)
  | rest => (.primitive .equal, rest)

section Expansion

variable (options : ParseOptions)

/-- From a lower bound, included, up to an upper bound, excluded. -/
def between (lower upper : Version) : List Comparator :=
  [.exact .greaterEqual lower options, .exact .less upper options]

/-- The lowest release of the next major number. -/
def nextMajor (major : Nat) : Except Fault Version :=
  Version.releaseChecked (major + 1) 0 0

/-- The lowest release of the next minor number. -/
def nextMinor (major minor : Nat) : Except Fault Version :=
  Version.releaseChecked major (minor + 1) 0

/-- A primitive operator in front of a partial version.  The operator is applied
to all releases that the partial version stands for at once. -/
def expandPrimitive (op : Operator) : PartialVersion → Except Fault (List Comparator)
  | .full v => .ok [.exact op v options]
  | .any =>
    match op with
    | .less | .greater => .ok [.exact .less Version.lowest options]
    | _ => .ok [.any options]
  | .major m => do
    match op with
    | .equal => return between options (← Version.releaseChecked m 0 0) (← nextMajor m)
    | .greater => return [.exact .greaterEqual (← nextMajor m) options]
    | .lessEqual => return [.exact .less (← nextMajor m) options]
    | _ => return [.exact op (← Version.releaseChecked m 0 0) options]
  | .minor m n => do
    match op with
    | .equal => return between options (← Version.releaseChecked m n 0) (← nextMinor m n)
    | .greater => return [.exact .greaterEqual (← nextMinor m n) options]
    | .lessEqual => return [.exact .less (← nextMinor m n) options]
    | _ => return [.exact op (← Version.releaseChecked m n 0) options]

/-- A tilde keeps the major and, where it is given, the minor number. -/
def expandTilde : PartialVersion → Except Fault (List Comparator)
  | .any => .ok [.any options]
  | .major m => return between options (← Version.releaseChecked m 0 0) (← nextMajor m)
  | .minor m n => return between options (← Version.releaseChecked m n 0) (← nextMinor m n)
  | .full v => return between options v (← nextMinor v.major v.minor)

/-- A caret keeps the numbers up to the leftmost one that is not zero. -/
def expandCaret : PartialVersion → Except Fault (List Comparator)
  | .any => .ok [.any options]
  | .major m => return between options (← Version.releaseChecked m 0 0) (← nextMajor m)
  | .minor m n =>
    if m = 0 then
      return between options (← Version.releaseChecked 0 n 0) (← nextMinor 0 n)
    else
      return between options (← Version.releaseChecked m n 0) (← nextMajor m)
  | .full v =>
    if v.major = 0 && v.minor = 0 then
      return between options v (← Version.releaseChecked 0 0 (v.patch + 1))
    else if v.major = 0 then
      return between options v (← nextMinor 0 v.minor)
    else
      return between options v (← nextMajor v.major)

/-- The lower bound of a hyphen item; missing numbers count as zero. -/
def lowerBound : PartialVersion → Except Fault (List Comparator)
  | .any => .ok []
  | .major m => return [.exact .greaterEqual (← Version.releaseChecked m 0 0) options]
  | .minor m n => return [.exact .greaterEqual (← Version.releaseChecked m n 0) options]
  | .full v => .ok [.exact .greaterEqual v options]

/-- The upper bound of a hyphen item; missing numbers may have any value. -/
def upperBound : PartialVersion → Except Fault (List Comparator)
  | .any => .ok []
  | .major m => return [.exact .less (← nextMajor m) options]
  | .minor m n => return [.exact .less (← nextMinor m n) options]
  | .full v => .ok [.exact .lessEqual v options]

/-- Two partial versions around a hyphen. -/
def expandHyphen (lower upper : PartialVersion) : Except Fault (List Comparator) := do
  let bounds := (← lowerBound options lower) ++ (← upperBound options upper)
  return if bounds.isEmpty then [.any options] else bounds

/-- A partial version behind an operator. -/
def expandItem (op : ItemOperator) (operand : PartialVersion) : Except Fault (List Comparator) :=
  match op with
  | .tilde => expandTilde options operand
  | .caret => expandCaret options operand
  | .primitive op => expandPrimitive options op operand

/-- A token that is not part of a hyphen item. -/
def expandToken (token : List Char) : Except Fault (List Comparator) := do
  let (op, operand) := readOperator token
  expandItem options op (← PartialVersion.parseChars operand)

/-- Expands the tokens from left to right; `group` is the text they come from. -/
def expandTokens (group : List Char) : List (List Char) → Except Fault (List Comparator)
  | [] => .ok []
  | ['-'] :: _ => .error (.range (.hyphenWithoutLower (String.ofList group)))
  | _ :: ['-'] :: [] => .error (.range (.hyphenWithoutUpper (String.ofList group)))
  | lower :: ['-'] :: upper :: rest => do
    let lower ← PartialVersion.parseChars lower
    let upper ← PartialVersion.parseChars upper
    let comparators ← expandHyphen options lower upper
    return comparators ++ (← expandTokens group rest)
  | token :: rest => do
    let comparators ← expandToken options token
    return comparators ++ (← expandTokens group rest)

/-- Reads a group.  A blank group admits any version; a group of nothing but commas
is not blank and has no comparators at all. -/
def parse (group : List Char) : Except Fault (List Comparator) :=
  if allBlank group then .ok [.any options]
  else expandTokens options group (tokens (trimBlanks group))

end Expansion

end Group

end VersionRange
