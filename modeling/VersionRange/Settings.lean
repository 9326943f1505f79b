import VersionRange.Text.Blank
import VersionRange.Json.Reader
import VersionRange.Files.Content
import VersionRange.Comparator

/-!
# Settings

The defaults that a session works with.  They come from a JSON file: the one that
is asked for, else the one that an environment variable names, else a file in the
working directory that need not exist.  Another variable overrides whether
prereleases are included.
-/

namespace VersionRange

structure Settings where
  includePrerelease : Bool := false
  /-- How many ranges a session remembers; a negative number counts as zero. -/
  cacheSize : Int := 256
  deriving DecidableEq, Repr

namespace Settings

def parseOptions (settings : Settings) : ParseOptions :=
  ⟨settings.includePrerelease⟩

def fileName : String := "npm-range.json"

/-- The keys that settings may have. -/
def knownKeys : List String := ["includePrerelease", "cacheSize"]

/-- The keys of an object that are not settings, in the order of their code points. -/
def unknownKeys (entries : List (Value × Value)) : List String :=
  let names := entries.map fun e => e.1.plain
  (names.filter fun name => !knownKeys.contains name).mergeSort
    fun a b => !textBefore b a

/-- Settings from the entries of an object.  A key that is absent has its default. -/
def ofEntries (entries : List (Value × Value)) : Except Fault Settings := do
  let includePrerelease ←
    match (Value.entry? "includePrerelease" entries).getD (.bool false) with
    | .bool b => pure b
    | _ => throw (.settings .includePrerelease)
  let cacheSize ←
    match (Value.entry? "cacheSize" entries).getD (.int 256) with
    | .int n => if 0 ≤ n then pure n else throw (.settings .cacheSize)
    | _ => throw (.settings .cacheSize)
  let unknown := unknownKeys entries
  if !unknown.isEmpty then throw (.settings (.unknownKeys unknown))
  return ⟨includePrerelease, cacheSize⟩

/-- Settings from a value that is supposed to be an object. -/
def ofValue : Value → Except Fault Settings
  | .object entries => ofEntries entries
  | other => .error (.sort (.noEntries other.kind))

/-- The words that switch prereleases on. -/
def yesWords : List String := ["1", "true", "yes", "y"]

/-- The words that switch prereleases off. -/
def noWords : List String := ["0", "false", "no", "n"]

/-- The settings with the override from the environment.  A blank value overrides
nothing; the case of the letters does not matter. -/
def override (environment : Environment) (settings : Settings) : Except Fault Settings :=
  match environment.get? includePrereleaseVariable with
  | none => .ok settings
  | some value =>
    let word := String.ofList ((trimBlanks value.toList).map Char.toLower)
    if word.isEmpty then .ok settings
    else if yesWords.contains word then .ok { settings with includePrerelease := true }
    else if noWords.contains word then .ok { settings with includePrerelease := false }
    else .error (.settings (.environment value))

/-- The path of the settings file, and whether the file must exist. -/
def path (asked : Option String) (environment : Environment) : Path × Bool :=
  match asked with
  | some text => (Path.ofText text, true)
  | none =>
    match environment.get? settingsPathVariable with
    | some text => if text.isEmpty then (Path.ofText fileName, false) else (Path.ofText text, true)
    | none => (Path.ofText fileName, false)

/-- Whether something is at the path. -/
def present (files : Files) (path : Path) : Except Fault Bool :=
  if (files.unnameable? path).isSome || path.text.toList.contains '\x00' then .ok false
  else
    match files.find path with
    | .ok _ => .ok true
    | .error reason =>
      if reason.isAbsence then .ok false else .error (.file ⟨reason, path.text⟩)

/-- The entries of the settings file at the path, in which `nesting` lists and objects may be
open at once. -/
def readEntries (nesting : Nat) (files : Files) (path : Path) :
    Except Fault (List (Value × Value)) := do
  let bytes ← (files.read path).mapError fun fault => .settings (.unreadable fault)
  let chars ← contentChars bytes
  match Json.readCharsWithin nesting chars with
  | .ok (.object entries) => return entries
  | .ok _ => throw (.settings .notObject)
  | .error (.json fault) => throw (.settings (.badJson fault))
  | .error other => throw other

/-- Loads the settings, from a file in which `nesting` lists and objects may be open at once.
How many that are depends on what the program has already got on its stack. -/
def loadWithin (nesting : Nat) (asked : Option String) (world : World) :
    Except Fault Settings := do
  let (path, required) := path asked world.environment
  if ← present world.files path then
    override world.environment (← ofEntries (← readEntries nesting world.files path))
  else if required then
    throw (.settings (.notFound path.text))
  else
    override world.environment {}

def load : Option String → World → Except Fault Settings :=
  loadWithin Json.nestingLimit

end Settings

end VersionRange
