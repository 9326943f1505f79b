import VersionRange.Numeral

/-!
# Semantic versions

A version has three numbers, a list of prerelease identifiers and a list of
build identifiers.  A version with prerelease identifiers is a *prerelease* and
any other is a *release*; build identifiers are carried along for display only.
-/

namespace VersionRange

/-- A prerelease identifier: a number, or a word that is not a number. -/
inductive Identifier
  | numeric (value : Nat)
  | word (text : String)
  deriving DecidableEq, Repr

/-- How an identifier is written. -/
def Identifier.chars : Identifier → List Char
  | .numeric value => numeralChars value
  | .word text => text.toList

structure Version where
  major : Nat
  minor : Nat
  patch : Nat
  prerelease : List Identifier
  build : List String
  deriving DecidableEq, Repr

/-- The pieces with a dot between any two neighbours. -/
def dotted (pieces : List (List Char)) : List Char :=
  ['.'].intercalate pieces

namespace Version

/-- The release with the given numbers. -/
def release (major minor patch : Nat) : Version :=
  ⟨major, minor, patch, [], []⟩

def isPrerelease (v : Version) : Bool :=
  !v.prerelease.isEmpty

/-- The three numbers, without prerelease and build. -/
def main (v : Version) : Nat × Nat × Nat :=
  (v.major, v.minor, v.patch)

/-- How the three numbers are written. -/
def mainChars (v : Version) : List Char :=
  dotted [numeralChars v.major, numeralChars v.minor, numeralChars v.patch]

/-- How the prerelease identifiers are written, without the hyphen in front. -/
def prereleaseChars (v : Version) : List Char :=
  dotted (v.prerelease.map Identifier.chars)

/-- How the build identifiers are written, without the plus sign in front. -/
def buildChars (v : Version) : List Char :=
  dotted (v.build.map String.toList)

/-- The written form of a version. -/
def chars (v : Version) : List Char :=
  v.mainChars ++
    (if v.prerelease.isEmpty then [] else '-' :: v.prereleaseChars) ++
    (if v.build.isEmpty then [] else '+' :: v.buildChars)

def text (v : Version) : String :=
  String.ofList v.chars

def withoutBuild (v : Version) : Version :=
  { v with build := [] }

/-- The lowest version there is: no numeric identifier is below zero, and numeric
identifiers are below all others. -/
def lowest : Version :=
  ⟨0, 0, 0, [.numeric 0], []⟩

@[simp] theorem toList_text (v : Version) : v.text.toList = v.chars :=
  String.toList_ofList

@[simp] theorem withoutBuild_prerelease (v : Version) :
    v.withoutBuild.prerelease = v.prerelease := rfl

@[simp] theorem withoutBuild_main (v : Version) : v.withoutBuild.main = v.main := rfl

end Version

end VersionRange
