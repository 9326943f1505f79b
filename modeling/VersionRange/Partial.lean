import VersionRange.Version.Parser

/-!
# Partial versions

Ranges may leave out the patch, the minor or even the major number of a version,
or put a wildcard in its place.  Whatever follows the first missing number is
without effect, so a partial version is one of four things: any version, a major
number, a major and a minor number, or a full version.

A partial version may start with a `v`.  A prerelease or a build may follow only
if all three numbers are written.
-/

namespace VersionRange

inductive PartialVersion
  | any
  | major (major : Nat)
  | minor (major minor : Nat)
  | full (version : Version)
  deriving DecidableEq, Repr

namespace PartialVersion

def major? : PartialVersion → Option Nat
  | any => none
  | major m => some m
  | minor m _ => some m
  | full v => some v.major

def minor? : PartialVersion → Option Nat
  | any => none
  | major _ => none
  | minor _ n => some n
  | full v => some v.minor

def patch? : PartialVersion → Option Nat
  | full v => some v.patch
  | _ => none

def full? : PartialVersion → Option Version
  | full v => some v
  | _ => none

/-- A place of a partial version as it is written. -/
inductive Place
  | wildcard
  | number (digits : List Char)
  deriving DecidableEq, Repr

/-- The places and the suffix of a written partial version. -/
structure Written where
  major : Place
  minor : Option Place
  patch : Option Place
  suffix : List Char
  deriving DecidableEq, Repr

def isWildcardChar (c : Char) : Bool :=
  c = 'x' || c = 'X' || c = '*'

/-- Reads one place: a wildcard, a zero, or digits that do not start with a zero. -/
def readPlace : List Char → Option (Place × List Char)
  | [] => none
  | c :: rest =>
    if isWildcardChar c then some (.wildcard, rest)
    else if c = '0' then some (.number ['0'], rest)
    else if c.isDigit then
      some (.number (c :: rest.takeWhile Char.isDigit), rest.dropWhile Char.isDigit)
    else none

/-- A suffix is empty, or starts with a hyphen or a plus sign and goes on with
characters of versions. -/
def isSuffix : List Char → Bool
  | [] => true
  | c :: rest => (c = '-' || c = '+') && rest.all isVersionChar

/-- The places of a text that follows the grammar of partial versions. -/
def Written.read? (text : List Char) : Option Written := do
  let body := if text.head? = some 'v' then text.drop 1 else text
  let (major, rest) ← readPlace body
  match rest with
  | [] => some ⟨major, none, none, []⟩
  | '.' :: rest =>
    let (minor, rest) ← readPlace rest
    match rest with
    | [] => some ⟨major, some minor, none, []⟩
    | '.' :: rest =>
      let (patch, suffix) ← readPlace rest
      if isSuffix suffix then some ⟨major, some minor, some patch, suffix⟩ else none
    | _ => none
  | _ => none

/-- The number at a place, if there is one; a number is read only where it counts. -/
def Place.number? : Option Place → Except Fault (Option Nat)
  | some (.number digits) => (liftNumeral (readNumeral digits)).map some
  | _ => .ok none

/-- The full version with the given numbers and the written suffix. -/
def readFull (text : List Char) (major minor patch : Nat) (suffix : List Char) :
    Except Fault PartialVersion :=
  match Version.parseChars ((Version.release major minor patch).mainChars ++ suffix) with
  | .ok version => .ok (.full version)
  | .error (.version _) => .error (.range (.badFull (String.ofList text)))
  | .error other => .error other

/-- A partial version that stops before its patch number. -/
def short (text suffix : List Char) (found : PartialVersion) : Except Fault PartialVersion :=
  if suffix.isEmpty then .ok found
  else .error (.range (.suffixOnWildcard (String.ofList text)))

/-- Reads a partial version. -/
def parseChars (text : List Char) : Except Fault PartialVersion :=
  match Written.read? text with
  | none => .error (.range (.badPartial (String.ofList text)))
  | some written => do
    match ← Place.number? (some written.major) with
    | none => short text written.suffix .any
    | some m =>
      match ← Place.number? written.minor with
      | none => short text written.suffix (.major m)
      | some n =>
        match ← Place.number? written.patch with
        | none => short text written.suffix (.minor m n)
        | some p => readFull text m n p written.suffix

def parse (text : String) : Except Fault PartialVersion :=
  parseChars text.toList

end PartialVersion

end VersionRange
