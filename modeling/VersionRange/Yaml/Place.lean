import VersionRange.Fault

/-!
# Places in a YAML text

The layout of YAML is by columns, so a place in a text knows its line and its
column beside the characters that follow.  A step that cannot go on means that the
text is not YAML; no more is said about why.
-/

namespace VersionRange.Yaml

/-- Why a text does not give a value. -/
inductive YamlFault
  /-- The text is not YAML, or holds something that no value stands for. -/
  | malformed
  /-- Something in the text is too large, too long or not in the calendar. -/
  | badValue (fault : Fault)

structure Place where
  index : Nat
  line : Nat
  column : Nat
  rest : List Char

/-- The characters that end a line. -/
def isBreak (c : Char) : Bool :=
  c = '\n' || c = '\r' || c = '\x85' || c = '\u2028' || c = '\u2029'

/-- The end of the text, the end of a line, or a space. -/
def endsTag : Option Char → Bool
  | none => true
  | some c => c = ' ' || isBreak c

/-- The end of the text, the end of a line, a space or a tab. -/
def endsWord : Option Char → Bool
  | none => true
  | some c => c = ' ' || c = '\t' || isBreak c

/-- The end of the text or the end of a line. -/
def endsLine : Option Char → Bool
  | none => true
  | some c => isBreak c

/-- Three dashes or three dots that stand alone at the front of a line. -/
def isSeparator (mark : Char) (chars : List Char) : Bool :=
  chars.take 3 = [mark, mark, mark] && endsWord (chars.drop 3).head?

namespace Place

def start (chars : List Char) : Place :=
  ⟨0, 0, 0, chars⟩

/-- One character on. -/
def next (place : Place) : Place :=
  match place.rest with
  | [] => place
  | c :: rest =>
    if c = '\r' && rest.head? = some '\n' then
      ⟨place.index + 1, place.line, place.column + 1, rest⟩
    else if isBreak c then ⟨place.index + 1, place.line + 1, 0, rest⟩
    else if c = '\uFEFF' then ⟨place.index + 1, place.line, place.column, rest⟩
    else ⟨place.index + 1, place.line, place.column + 1, rest⟩

def advance : Nat → Place → Place
  | 0, place => place
  | n + 1, place => advance n place.next

end Place

/-- A step of reading. -/
abbrev Reading := StateT Place (Except YamlFault)

namespace Reading

def malformed {α : Type} : Reading α :=
  throw .malformed

/-- The character at a distance, if the text goes on that far. -/
def peekAt (distance : Nat) : Reading (Option Char) := do
  return ((← get).rest.drop distance).head?

def peek : Reading (Option Char) :=
  peekAt 0

def forward (count : Nat) : Reading Unit :=
  modify (Place.advance count)

def column : Reading Nat := do
  return (← get).column

/-- Takes the characters up to the first that is not accepted. -/
def takeWhile (accepted : Char → Bool) : Reading (List Char) := do
  let taken := (← get).rest.takeWhile accepted
  forward taken.length
  return taken

def skipWhile (accepted : Char → Bool) : Reading Unit := do
  let _ ← takeWhile accepted

/-- Skips a comment, if there is one here. -/
def skipComment : Reading Unit := do
  if (← peek) = some '#' then skipWhile fun c => !isBreak c

/-- Takes a line end, if there is one here.  All ordinary line ends are read as a
line feed. -/
def lineBreak : Reading (List Char) := do
  match ← peek with
  | some c =>
    if c = '\r' && (← peekAt 1) = some '\n' then
      forward 2
      return ['\n']
    else if c = '\u2028' || c = '\u2029' then
      forward 1
      return [c]
    else if isBreak c then
      forward 1
      return ['\n']
    else return []
  | none => return []

/-- Whether a document separator stands here. -/
def atSeparator : Reading Bool := do
  let rest := (← get).rest
  return isSeparator '-' rest || isSeparator '.' rest

end Reading

end VersionRange.Yaml
