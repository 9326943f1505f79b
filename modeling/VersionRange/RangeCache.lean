import VersionRange.Range

/-!
# The cache of ranges

A cache remembers the ranges that were read last, each under its text and options.
The entries stand in the order of their last use, the latest first.  Every range
that is read gets a stamp of its own, so that a remembered range can be told from
one that was read again.
-/

namespace VersionRange

/-- A range as it came out of one reading. -/
structure StampedRange where
  stamp : Nat
  range : Range
  deriving DecidableEq, Repr

structure CacheKey where
  text : String
  options : ParseOptions
  deriving DecidableEq, Repr

/-- At most `capacity` ranges; a cache of capacity zero remembers nothing. -/
structure RangeCache where
  capacity : Nat
  entries : List (CacheKey × StampedRange)
  deriving Repr

namespace RangeCache

def empty (capacity : Nat) : RangeCache :=
  ⟨capacity, []⟩

/-- The remembered range of a key, and the cache after its use. -/
def use? (cache : RangeCache) (key : CacheKey) : Option (StampedRange × RangeCache) :=
  match cache.entries.lookup key with
  | none => none
  | some found =>
    some (found, { cache with
      entries := (key, found) :: cache.entries.filter fun entry => entry.1 ≠ key })

/-- Remembers a range under a key that is not in the cache.  If the cache is full,
the entry that was not used for longest is forgotten. -/
def insert (cache : RangeCache) (key : CacheKey) (found : StampedRange) : RangeCache :=
  { cache with entries := ((key, found) :: cache.entries).take cache.capacity }

end RangeCache

end VersionRange
