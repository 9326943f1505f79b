import VersionRange.Text.Quoted

/-!
# Paths

A path is a list of names.  Empty names and single dots are dropped when a path
is read, so `./a//b` and `a/b` are the same path; two dots are kept, because what
they mean depends on the files.  The path without any name is the working
directory, written as a single dot.
-/

namespace VersionRange

structure Path where
  rooted : Bool
  names : List String
  deriving DecidableEq, Repr

namespace Path

def ofText (text : String) : Path :=
  let chars := text.toList
  { rooted := chars.head? = some '/'
    names := ((chars.splitOn '/').map String.ofList).filter fun name => name ≠ "" ∧ name ≠ "." }

/-- The steps from the working directory: the names, behind a slash if the path begins
at the root. -/
def steps (path : Path) : List String :=
  if path.rooted then "/" :: path.names else path.names

def text (path : Path) : String :=
  if path.rooted then "/" ++ "/".intercalate path.names
  else if path.names.isEmpty then "."
  else "/".intercalate path.names

/-- The ending of the last name from its last dot on.  A dot at either end of the
name does not count. -/
def suffix (path : Path) : String :=
  match path.names.getLast? with
  | none => ""
  | some name =>
    let reversed := name.toList.reverse
    let ending := reversed.takeWhile (· ≠ '.')
    let front := (reversed.dropWhile (· ≠ '.')).drop 1
    if ending.isEmpty || front.isEmpty then "" else String.ofList ('.' :: ending.reverse)

/-- Whether a character stands in for a half that no file name has.  The halves from
U+DC80 to U+DCFF are left out, because they name single bytes. -/
def isUnnameable (c : Char) : Bool :=
  isStandIn c && !(0xDC80 ≤ codePoint c && codePoint c ≤ 0xDCFF)

/-- The first halves that no file name has: where they begin, and the halves up to the
next character. -/
def unnameable? (path : Path) : Option (Nat × List Nat) :=
  let chars := path.text.toList
  let front := chars.takeWhile fun c => !isUnnameable c
  match (chars.drop front.length).takeWhile isStandIn with
  | [] => none
  | halves => some (front.length, halves.map codePoint)

example : (ofText "./x//y.JSON").text = "x/y.JSON" := by decide +kernel

example : (ofText ".yaml").suffix = "" ∧ (ofText "a.json.yml").suffix = ".yml" := by
  decide +kernel

end Path

end VersionRange
