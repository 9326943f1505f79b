import VersionRange.Version.Basic

/-!
# Precedence

Versions are ranked by their three numbers, then a release above any of its
prereleases, then prereleases by their written identifiers from left to right.
The ranking works on the written prerelease: it ends at the first plus sign, is
cut at its dots, pieces of digits are compared as numbers and come before words,
and words are compared character by character.  When all pieces that face each
other agree, the shorter text is lower.  The build never matters.

A word with a plus sign can begin with more digits than a numeral has.  What is ranked
here without a limit cannot be ranked at all then, and theorems that tell what becomes of
every version leave such versions out.
-/

namespace VersionRange

/-- Compares two pieces of a written prerelease. -/
def comparePieces (a b : List Char) : Ordering :=
  let isNumber (piece : List Char) := !piece.isEmpty && piece.all Char.isDigit
  match isNumber a, isNumber b with
  | true, true => compare (digitsValue a) (digitsValue b)
  | true, false => .lt
  | false, true => .gt
  | false, false => compare a b

/-- The outcome at the first place where two lists of pieces differ, if any of the
places that both have. -/
def compareFacing : List (List Char) → List (List Char) → Ordering
  | a :: as, b :: bs => (comparePieces a b).then (compareFacing as bs)
  | _, _ => .eq

/-- Compares two written prereleases; nothing written means a release. -/
def comparePrereleaseTexts (a b : List Char) : Ordering :=
  match a.isEmpty, b.isEmpty with
  | true, true => .eq
  | true, false => .gt
  | false, true => .lt
  | false, false =>
    (compareFacing (a.splitOn '.') (b.splitOn '.')).then (compare a.length b.length)

namespace Version

/-- The written prerelease as far as it counts for the ranking. -/
def rankedPrerelease (v : Version) : List Char :=
  v.prereleaseChars.takeWhile (· ≠ '+')

/-- How `a` ranks relative to `b`. -/
def compare (a b : Version) : Ordering :=
  ((Ord.compare a.major b.major).then
    ((Ord.compare a.minor b.minor).then (Ord.compare a.patch b.patch))).then
    (comparePrereleaseTexts a.rankedPrerelease b.rankedPrerelease)

/-- Versions that rank the same. -/
def sameRank (a b : Version) : Bool :=
  a.compare b == .eq

/-- Versions that rank the same and agree in all but the build; such versions count
as one where duplicates are dropped. -/
def interchangeable (a b : Version) : Bool :=
  a.sameRank b && a.main == b.main && a.prerelease == b.prerelease

end Version

/-- Keeps the first of any elements that `same` identifies. -/
def distinctBy {α : Type} (same : α → α → Bool) : List α → List α
  | [] => []
  | a :: rest => a :: (distinctBy same rest).filter fun b => !same a b

/-- Puts `a` in front of the first element that ranks above it. -/
def insertRanked (rank : Version → Version → Ordering) (a : Version) : List Version → List Version
  | [] => [a]
  | b :: rest => if (rank a b).isGT then b :: insertRanked rank a rest else a :: b :: rest

/-- Sorts by rank; versions of one rank keep their order. -/
def sortRanked (rank : Version → Version → Ordering) : List Version → List Version
  | [] => []
  | a :: rest => insertRanked rank a (sortRanked rank rest)

namespace Version

/-- From the lowest to the highest. -/
def sort (versions : List Version) : List Version :=
  sortRanked compare versions

/-- From the highest to the lowest; versions of one rank still keep their order. -/
def sortDescending (versions : List Version) : List Version :=
  sortRanked (fun a b => compare b a) versions

/-- The first of each set of interchangeable versions. -/
def distinct (versions : List Version) : List Version :=
  distinctBy interchangeable versions

/-- The first among the highest versions. -/
def highest? : List Version → Option Version
  | [] => none
  | v :: rest => some (rest.foldl (fun best w => if (w.compare best).isGT then w else best) v)

end Version

end VersionRange
