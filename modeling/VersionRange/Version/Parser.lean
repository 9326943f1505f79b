import VersionRange.Text.UnicodeDigit
import VersionRange.Fault

/-!
# Reading and building versions

A version text is cut at its first plus sign, what stands before that at its
first hyphen, and the pieces at their dots.  There are exactly three numbers,
written without leading zeros; a prerelease identifier that consists of digits
has no leading zero either.  A version can also be built from values; it is then
accepted when its written form is a version text.
-/

namespace VersionRange

/-- The characters that versions are written with. -/
def isVersionChar (c : Char) : Bool :=
  c.isAlphanum || c = '.' || c = '+' || c = '-'

/-- The characters that identifiers are written with. -/
def isIdentifierChar (c : Char) : Bool :=
  c.isAlphanum || c = '-'

/-- Digits without a leading zero, or zero itself. -/
def isNumericForm : List Char → Bool
  | [] => false
  | ['0'] => true
  | c :: rest => c != '0' && c.isDigit && rest.all Char.isDigit

/-- A non-empty run of identifier characters, as in a build. -/
def isBuildForm (piece : List Char) : Bool :=
  !piece.isEmpty && piece.all isIdentifierChar

/-- A build identifier that, if it consists of digits, has no leading zero. -/
def isPrereleaseForm (piece : List Char) : Bool :=
  isBuildForm piece && (!piece.all Char.isDigit || isNumericForm piece)

/-- The part before the first `separator`, and the part after it if there is one. -/
def cutAt (separator : Char) : List Char → List Char × Option (List Char)
  | [] => ([], none)
  | c :: rest =>
    if c = separator then ([], some rest)
    else
      let (before, after) := cutAt separator rest
      (c :: before, after)

/-- The pieces of a version text. -/
structure WrittenVersion where
  major : List Char
  minor : List Char
  patch : List Char
  prerelease : List (List Char)
  build : List (List Char)
  deriving DecidableEq, Repr

namespace WrittenVersion

/-- The dot-separated pieces of a part that may be absent, if all have the form. -/
def pieces? (hasForm : List Char → Bool) : Option (List Char) → Option (List (List Char))
  | none => some []
  | some part =>
    let pieces := part.splitOn '.'
    if pieces.all hasForm then some pieces else none

/-- The pieces of a text that follows the version grammar. -/
def read? (text : List Char) : Option WrittenVersion :=
  let (front, buildPart) := cutAt '+' text
  let (main, prereleasePart) := cutAt '-' front
  match main.splitOn '.' with
  | [major, minor, patch] =>
    if isNumericForm major && isNumericForm minor && isNumericForm patch then do
      let prerelease ← pieces? isPrereleaseForm prereleasePart
      let build ← pieces? isBuildForm buildPart
      return ⟨major, minor, patch, prerelease, build⟩
    else none
  | _ => none

end WrittenVersion

/-- An identifier of digits is a number, any other a word. -/
def Identifier.read (piece : List Char) : Except NumeralFault Identifier :=
  if piece.all Char.isDigit then (readNumeral piece).map .numeric
  else .ok (.word (String.ofList piece))

namespace Version

/-- Reads a version text.  One of the three numbers being too long makes the text
bad; a prerelease number that is too long is a fault of its own. -/
def parseChars (text : List Char) : Except Fault Version :=
  if text.isEmpty || !text.all isVersionChar then
    .error (.version (.forbiddenCharacter (String.ofList text)))
  else
    match WrittenVersion.read? text with
    | none => .error (.version (.badForm (String.ofList text)))
    | some written =>
      match readNumeral written.major, readNumeral written.minor, readNumeral written.patch with
      | .ok major, .ok minor, .ok patch => do
        let prerelease ← liftNumeral (written.prerelease.mapM Identifier.read)
        return ⟨major, minor, patch, prerelease, written.build.map String.ofList⟩
      | _, _, _ => .error (.version (.badForm (String.ofList text)))

/-- Reads a version text. -/
def parse (text : String) : Except Fault Version :=
  parseChars text.toList

/-- Reads a version from a value, which must be a text. -/
def ofValue (value : Value) : Except Fault Version :=
  match value with
  | .text text => parse text
  | other => .error (.version (.notText other.kind))

/-- A version as it is, if all its numbers can be written and its written form is
a version text. -/
def checked (v : Version) : Except Fault Version := do
  for number in [v.major, v.minor, v.patch] do
    let _ ← liftNumeral (writableNumeral number)
  for identifier in v.prerelease do
    if let .numeric number := identifier then
      let _ ← liftNumeral (writableNumeral number)
  if v.chars.isEmpty || !v.chars.all isVersionChar then
    throw (.version (.forbiddenCharacter v.text))
  if (WrittenVersion.read? v.chars).isNone then
    throw (.version (.badForm v.text))
  return v

/-- The release with the given numbers, if they can be written. -/
def releaseChecked (major minor patch : Nat) : Except Fault Version :=
  checked (release major minor patch)

end Version

/-- The members of a value that has members: the characters of a text, the items
of a list, the keys of an object. -/
def Value.members : Value → Except Fault (List Value)
  | .text s => .ok (s.toList.map fun c => .text (String.ofList [c]))
  | .list items => .ok items
  | .object entries => .ok (entries.map Prod.fst)
  | other => .error (.sort (.notIterable other.kind))

namespace Version

/-- A number of a version given as a value. -/
def partOfValue (part : MainPart) : Value → Except Fault Nat
  | .int n => if 0 ≤ n then .ok n.natAbs else .error (.version (.badPart part (.int n)))
  | other => .error (.version (.badPart part other))

/-- A prerelease identifier given as a value.  A word is not made of digits of any
script and has no dot. -/
def identifierOfValue : Value → Except Fault Identifier
  | .int n =>
    if 0 ≤ n then .ok (.numeric n.natAbs) else .error (.version (.badIdentifier (.int n)))
  | .text s =>
    if allUnicodeDigits s || s.toList.contains '.' then
      .error (.version (.badIdentifier (.text s)))
    else .ok (.word s)
  | other => .error (.version (.badIdentifier other))

/-- The build identifiers given as values: texts without a dot. -/
def buildOfValues (items : List Value) : Except Fault (List String) :=
  let texts := items.filterMap fun item =>
    match item with
    | .text s => if s.toList.contains '.' then none else some s
    | _ => none
  if texts.length = items.length then .ok texts else .error (.version (.badBuild items))

/-- Builds a version from values.  A word among the prerelease identifiers may hold
a plus sign: what follows it in the written form then reads as the build. -/
def build? (major minor patch prerelease build : Value) : Except Fault Version := do
  let major ← partOfValue .major major
  let minor ← partOfValue .minor minor
  let patch ← partOfValue .patch patch
  let prereleaseItems ← prerelease.members
  let buildItems ← build.members
  let prerelease ← prereleaseItems.mapM identifierOfValue
  let build ← buildOfValues buildItems
  checked ⟨major, minor, patch, prerelease, build⟩

end Version

end VersionRange
