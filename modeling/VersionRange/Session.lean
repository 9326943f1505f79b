import VersionRange.RangeCache
import VersionRange.Settings

/-!
# Sessions

A session answers questions about versions and ranges.  It keeps the settings in
force and a cache of ranges.  Settings are loaded only when a question leaves out
its options and none have been installed before; installing settings starts a new
cache.
-/

namespace VersionRange

structure Session where
  settings : Option Settings
  cache : Option RangeCache
  /-- The stamp of the next range that is read. -/
  nextStamp : Nat
  journal : Journal

/-- A step of a session, which may end in a fault.  The session goes on from the
state in which the fault leaves it. -/
abbrev InSession := ExceptT Fault (StateM Session)

/-- Where a question takes its range from. -/
inductive RangeSource
  | given (range : Range)
  | written (text : Value)

namespace Session

def initial : Session :=
  ⟨none, none, 0, []⟩

def lift {α : Type} (outcome : Except Fault α) : InSession α :=
  match outcome with
  | .ok value => pure value
  | .error fault => throw fault

/-- The largest cache that fits into memory indices. -/
def cacheSizeLimit : Int := 9223372036854775807

/-- The capacity of the cache of a session without settings. -/
def defaultCapacity : Nat := 256

/-- Installs settings and starts a new cache.  A cache that is too large is refused
only after the settings are in force, and the old cache stays. -/
def install (settings : Settings) : InSession Settings := do
  modify fun session => { session with settings := some settings }
  if cacheSizeLimit < settings.cacheSize then throw .cacheTooLarge
  modify fun session => { session with cache := some (RangeCache.empty settings.cacheSize.toNat) }
  return settings

/-- Installs the given settings, or those that are loaded. -/
def configure (world : World) (settings : Option Settings) : InSession Settings := do
  match settings with
  | some settings => install settings
  | none => install (← lift (Settings.load none world))

/-- The settings in force; if there are none, they are loaded and installed. -/
def currentSettings (world : World) : InSession Settings := do
  match (← get).settings with
  | some settings => return settings
  | none => configure world none

/-- The cache; if there is none, one of the default capacity is started. -/
def currentCache : InSession RangeCache := do
  match (← get).cache with
  | some cache => return cache
  | none =>
    let cache := RangeCache.empty defaultCapacity
    modify fun session => { session with cache := some cache }
    return cache

/-- Reads a range text and gives the range the next stamp. -/
def readStamped (options : ParseOptions) (text : String) : InSession StampedRange := do
  let (range, record) ← lift (Range.parseRecorded options text)
  let stamp := (← get).nextStamp
  modify fun session =>
    { session with nextStamp := stamp + 1, journal := session.journal ++ record.toList }
  return ⟨stamp, range⟩

/-- The range of a text: the remembered one, or one that is read and remembered. -/
def lookUp (options : ParseOptions) (text : String) : InSession StampedRange := do
  let cache ← currentCache
  let key : CacheKey := ⟨text, options⟩
  match cache.use? key with
  | some (found, cache) =>
    modify fun session => { session with cache := some cache }
    return found
  | none =>
    let found ← readStamped options text
    modify fun session => { session with cache := some (cache.insert key found) }
    return found

/-- A value that is no text has no range.  A cache that remembers anything refuses
values that cannot be keys before that. -/
def refuse (value : Value) : InSession StampedRange := do
  let cache ← currentCache
  if 0 < cache.capacity && !value.isKey then throw (.sort (.notHashable value.kind))
  throw (.range (.notText value.kind))

/-- The range of a value under the given options, or under those in force. -/
def parseRange (world : World) (options : Option ParseOptions) (text : Value) :
    InSession StampedRange := do
  let options ← match options with
    | some options => pure options
    | none => do pure (← currentSettings world).parseOptions
  match text with
  | .text text => lookUp options text
  | other => refuse other

/-- The range of a question. -/
def rangeOf (world : World) (options : Option ParseOptions) : RangeSource → InSession Range
  | .given range => pure range
  | .written text => do return (← parseRange world options text).range

/-- A version given as such or as a text. -/
def versionOf : Value → Except Fault Version
  | .version v => .ok v
  | other => Version.ofValue other

/-- Whether the range includes the version. -/
def satisfies (world : World) (options : Option ParseOptions) (version : Value)
    (source : RangeSource) : InSession Bool := do
  let range ← rangeOf world options source
  return range.includes (← lift (versionOf version))

/-- The versions that the range includes, in their order. -/
def filterSatisfying (world : World) (options : Option ParseOptions) (versions : Value)
    (source : RangeSource) : InSession (List Version) := do
  let range ← rangeOf world options source
  let candidates ← lift (do (← versions.members).mapM versionOf)
  return candidates.filter range.includes

/-- The first among the highest versions that the range includes. -/
def maxSatisfying (world : World) (options : Option ParseOptions) (versions : Value)
    (source : RangeSource) : InSession (Option Version) := do
  return Version.highest? (← filterSatisfying world options versions source)

end Session

end VersionRange
