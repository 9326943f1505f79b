import VersionRange.Yaml.Place
import VersionRange.Json.Reader

/-!
# The scalars of YAML

Scalars are written plainly, between single or double quotes, or as blocks of
lines.  Within plain and quoted scalars a single line end counts as a space, and
of several line ends the first is dropped; in blocks the header decides.
-/

namespace VersionRange.Yaml

open Reading

/-- Indicators that end a plain scalar inside brackets. -/
def isFlowIndicator (c : Char) : Bool :=
  c = ',' || c = '?' || c = '[' || c = ']' || c = '\x7b' || c = '\x7d'

/-- Whether a colon in front of this character ends a plain scalar. -/
def endsKey (inFlow : Bool) (next : Option Char) : Bool :=
  endsWord next || (inFlow && next.any fun c => isFlowIndicator c && c ≠ '?')

/-- The characters of a plain scalar up to the next blank. -/
def plainRun (inFlow : Bool) : List Char → List Char
  | [] => []
  | c :: rest =>
    if endsWord (some c) || (c = ':' && endsKey inFlow rest.head?) ||
        (inFlow && isFlowIndicator c) then []
    else c :: plainRun inFlow rest

/-- Takes line ends and the spaces around them; nothing if a document separator
turns up.  The first argument bounds the number of steps. -/
def plainBreaks : Nat → List Char → Reading (Option (List Char))
  | 0, breaks => return some breaks
  | steps + 1, breaks => do
    match ← peek with
    | some ' ' =>
      forward 1
      plainBreaks steps breaks
    | next =>
      if next.any isBreak then
        let taken ← lineBreak
        if ← atSeparator then return none
        plainBreaks steps (breaks ++ taken)
      else return some breaks

/-- What a run of blanks inside a plain scalar stands for, and whether it holds a
line end.  Nothing if the scalar ends here. -/
def plainBlanks : Reading (List Char × Bool) := do
  let spaces ← takeWhile (· = ' ')
  if (← peek).any isBreak then
    let first ← lineBreak
    if ← atSeparator then return ([], true)
    match ← plainBreaks ((← get).rest.length + 1) [] with
    | none => return ([], true)
    | some breaks =>
      if first ≠ ['\n'] then return (first ++ breaks, true)
      else if breaks.isEmpty then return ([' '], true)
      else return (breaks, true)
  else return (spaces, false)

/-- Takes the runs of a plain scalar; `blanks` stand between what has been taken
and the next run.  Gives the text, and whether a line has just begun. -/
def plainRuns (inFlow : Bool) (indent : Int) :
    Nat → List Char → List Char → Bool → Reading (List Char × Bool)
  | 0, taken, _, atLine => return (taken, atLine)
  | steps + 1, taken, blanks, atLine => do
    let run := plainRun inFlow (← get).rest
    if (← peek) = some '#' || run.isEmpty then return (taken, atLine)
    forward run.length
    let taken := taken ++ blanks ++ run
    let (blanks, atLine) ← plainBlanks
    if blanks.isEmpty || (← peek) = some '#' || (!inFlow && ((← column) : Int) < indent) then
      return (taken, atLine)
    plainRuns inFlow indent steps taken blanks atLine

/-- Reads a plain scalar. -/
def readPlain (inFlow : Bool) (indent : Int) : Reading (List Char × Bool) := do
  plainRuns inFlow indent ((← get).rest.length + 1) [] [] false

/-- The characters that stand for themselves in quoted scalars of both kinds. -/
def isQuotedChar (c : Char) : Bool :=
  c ≠ '\'' && c ≠ '"' && c ≠ '\\' && !endsWord (some c)

/-- What a letter behind a backslash stands for. -/
def escapeChar? : Char → Option Char
  | '0' => some '\x00'
  | 'a' => some '\x07'
  | 'b' => some '\x08'
  | 't' => some '\t'
  | '\t' => some '\t'
  | 'n' => some '\n'
  | 'v' => some '\x0b'
  | 'f' => some '\x0c'
  | 'r' => some '\r'
  | 'e' => some '\x1b'
  | ' ' => some ' '
  | '"' => some '"'
  | '\\' => some '\\'
  | '/' => some '/'
  | 'N' => some '\x85'
  | '_' => some '\xa0'
  | 'L' => some '\u2028'
  | 'P' => some '\u2029'
  | _ => none

/-- How many hexadecimal digits follow a letter behind a backslash. -/
def escapeWidth? : Char → Option Nat
  | 'x' => some 2
  | 'u' => some 4
  | 'U' => some 8
  | _ => none

/-- Takes line ends inside quotes and the blanks around them.  A document separator
must not turn up. -/
def quotedBreaks : Nat → List Char → Reading (List Char)
  | 0, breaks => return breaks
  | steps + 1, breaks => do
    if ← atSeparator then malformed
    skipWhile fun c => c = ' ' || c = '\t'
    if (← peek).any isBreak then
      quotedBreaks steps (breaks ++ (← lineBreak))
    else return breaks

/-- Reads what follows a backslash between double quotes. -/
def readEscape : Reading (List Char) := do
  match ← peek with
  | none => malformed
  | some c =>
    match escapeChar? c, escapeWidth? c with
    | some char, _ =>
      forward 1
      return [char]
    | none, some width =>
      let digits := ((← get).rest.drop 1).take width
      match Json.hexNumber? digits with
      | none => malformed
      | some number =>
        if digits.length < width then malformed
        if 0x10FFFF < number then throw (.badValue (.noCharacter number))
        forward (width + 1)
        return [charOfCodePoint number]
    | none, none =>
      if isBreak c then
        let _ ← lineBreak
        quotedBreaks ((← get).rest.length + 1) []
      else malformed

/-- Takes the characters between quotes up to a blank or the end of the scalar. -/
def quotedRun (double : Bool) : Nat → List Char → Reading (List Char)
  | 0, taken => return taken
  | steps + 1, taken => do
    let taken := taken ++ (← takeWhile isQuotedChar)
    match ← peek with
    | some '\'' =>
      if double then
        forward 1
        quotedRun double steps (taken ++ ['\''])
      else if (← peekAt 1) = some '\'' then
        forward 2
        quotedRun double steps (taken ++ ['\''])
      else return taken
    | some '"' =>
      if double then return taken
      forward 1
      quotedRun double steps (taken ++ ['"'])
    | some '\\' =>
      forward 1
      if double then
        quotedRun double steps (taken ++ (← readEscape))
      else
        quotedRun double steps (taken ++ ['\\'])
    | _ => return taken

/-- What a run of blanks between quotes stands for. -/
def quotedBlanks : Reading (List Char) := do
  let spaces ← takeWhile fun c => c = ' ' || c = '\t'
  match ← peek with
  | none => malformed
  | some c =>
    if isBreak c then
      let first ← lineBreak
      let breaks ← quotedBreaks ((← get).rest.length + 1) []
      if first ≠ ['\n'] then return first ++ breaks
      else if breaks.isEmpty then return [' ']
      else return breaks
    else return spaces

/-- Takes everything up to the closing quote. -/
def quotedParts (double : Bool) : Nat → List Char → Reading (List Char)
  | 0, _ => malformed
  | steps + 1, taken => do
    let taken := taken ++ (← quotedRun double ((← get).rest.length + 1) [])
    if (← peek) = some (if double then '"' else '\'') then
      forward 1
      return taken
    else quotedParts double steps (taken ++ (← quotedBlanks))

/-- Reads a quoted scalar whose opening quote is here. -/
def readQuoted (double : Bool) : Reading (List Char) := do
  forward 1
  quotedParts double ((← get).rest.length + 1) []

/-- What happens to the line ends behind the last line of a block. -/
inductive Chomping
  | strip
  | clip
  | keep
  deriving DecidableEq

def readChomping : Reading (Option Chomping) := do
  match ← peek with
  | some '+' =>
    forward 1
    return some .keep
  | some '-' =>
    forward 1
    return some .strip
  | _ => return none

/-- An indentation given in the header: one digit that is not zero. -/
def readIncrement : Reading (Option Nat) := do
  match ← peek with
  | some c =>
    if c.isDigit then
      if c = '0' then malformed
      forward 1
      return some (c.toNat - 48)
    else return none
  | none => return none

/-- Reads the header of a block: chomping and indentation in either order. -/
def readHeader : Reading (Chomping × Option Nat) := do
  let first ← readChomping
  let increment ← readIncrement
  let chomping ← match first with
    | some chomping => pure chomping
    | none => do
      if increment.isSome then pure ((← readChomping).getD .clip) else pure .clip
  if !endsTag (← peek) then malformed
  skipWhile (· = ' ')
  skipComment
  if !endsLine (← peek) then malformed
  let _ ← lineBreak
  return (chomping, increment)

/-- Takes the blank lines in front of a block and finds the deepest column that
their spaces reach. -/
def blockIndentation : Nat → List Char → Nat → Reading (List Char × Nat)
  | 0, breaks, deepest => return (breaks, deepest)
  | steps + 1, breaks, deepest => do
    match ← peek with
    | some ' ' =>
      forward 1
      blockIndentation steps breaks (max deepest (← column))
    | next =>
      if next.any isBreak then
        blockIndentation steps (breaks ++ (← lineBreak)) deepest
      else return (breaks, deepest)

/-- Skips spaces up to the indentation of a block. -/
def skipIndent (indent : Nat) : Reading Unit := do
  let here ← column
  let spaces := ((← get).rest.take (indent - here)).takeWhile (· = ' ')
  forward spaces.length

/-- Takes the line ends of empty lines inside a block. -/
def blockBreaks (indent : Nat) : Nat → List Char → Reading (List Char)
  | 0, breaks => return breaks
  | steps + 1, breaks => do
    if (← peek).any isBreak then
      let taken ← lineBreak
      skipIndent indent
      blockBreaks indent steps (breaks ++ taken)
    else return breaks

/-- Takes the lines of a block.  `breaks` are the line ends of the empty lines in
front of the next line.  Gives the text without the line ends at its end, the line
end of the last line and those of the empty lines behind it. -/
def blockLines (folded : Bool) (indent : Nat) :
    Nat → List Char → List Char → List Char → Reading (List Char × List Char × List Char)
  | 0, taken, breaks, ending => return (taken, ending, breaks)
  | steps + 1, taken, breaks, ending => do
    if (← column) ≠ indent || (← peek).isNone then return (taken, ending, breaks)
    let startsFull := !(← peek).any fun c => c = ' ' || c = '\t'
    let line ← takeWhile fun c => !isBreak c
    let taken := taken ++ breaks ++ line
    let ending ← lineBreak
    skipIndent indent
    let breaks ← blockBreaks indent ((← get).rest.length + 1) []
    let next ← peek
    if (← column) = indent && next.isSome then
      let nextFull := !next.any fun c => c = ' ' || c = '\t'
      let joint :=
        if folded && ending = ['\n'] && startsFull && nextFull then
          (if breaks.isEmpty then [' '] else [])
        else ending
      blockLines folded indent steps (taken ++ joint) breaks []
    else return (taken, ending, breaks)

/-- Reads a block scalar whose indicator is here; `indent` is the column of the
enclosing block. -/
def readBlock (folded : Bool) (indent : Int) : Reading (List Char) := do
  forward 1
  let (chomping, increment) ← readHeader
  let least := (max (indent + 1) 1).toNat
  let steps := (← get).rest.length + 1
  let (breaks, indent) ← match increment with
    | none => do
      let (breaks, deepest) ← blockIndentation steps [] 0
      pure (breaks, max least deepest)
    | some n => do
      let indent := least + n - 1
      skipIndent indent
      pure (← blockBreaks indent steps [], indent)
  let (text, ending, after) ← blockLines folded indent steps [] breaks []
  return match chomping with
    | .strip => text
    | .clip => text ++ ending
    | .keep => text ++ ending ++ after

end VersionRange.Yaml
