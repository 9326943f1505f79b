import VersionRange.Text.Utf8
import VersionRange.Operator
import VersionRange.Json.Fault
import VersionRange.Files.Basic
import VersionRange.Manifest.Violation

/-!
# Faults

Everything that can go wrong, as causes.  The four large families belong to
versions, ranges, manifests and settings; the remaining causes can surface
through any of them.  Each family has its wording in one function.
-/

namespace VersionRange

/-- The three numbers of a version. -/
inductive MainPart
  | major
  | minor
  | patch
  deriving DecidableEq, Repr

def MainPart.name : MainPart → String
  | major => "major"
  | minor => "minor"
  | patch => "patch"

/-- Why something is not a version. -/
inductive VersionFault
  /-- Not a text but a value of the given sort. -/
  | notText (kind : String)
  /-- Empty, or with a character that no version has. -/
  | forbiddenCharacter (text : String)
  /-- The right characters in a wrong arrangement. -/
  | badForm (text : String)
  | badPart (part : MainPart) (value : Value)
  | badIdentifier (value : Value)
  | badBuild (items : List Value)

def VersionFault.message : VersionFault → String
  | notText kind => "Version must be a string, got " ++ kind
  | forbiddenCharacter text => "Invalid version: " ++ quoted text
  | badForm text => "Invalid version: " ++ quoted text
  | badPart part value => part.name ++ " must be a non-negative integer, got " ++ value.literal
  | badIdentifier value => "Invalid prerelease identifier: " ++ value.literal
  | badBuild items => "Invalid build identifiers: " ++ Value.tupleLiteral items

/-- Why something is not a range or a comparator. -/
inductive RangeFault
  /-- Not a text but a value of the given sort. -/
  | notText (kind : String)
  | unknownOperator (token : Value)
  | badOperator (value : Value)
  | missingTarget (op : Operator)
  /-- Neither a version nor a partial version. -/
  | badPartial (text : String)
  /-- Three numbers followed by something that no version ends in. -/
  | badFull (text : String)
  | suffixOnWildcard (text : String)
  | hyphenWithoutLower (group : String)
  | hyphenWithoutUpper (group : String)

def RangeFault.message : RangeFault → String
  | notText kind => "Range must be a string, got " ++ kind
  | unknownOperator token => "Unknown comparator operator: " ++ token.literal
  | badOperator value => "Invalid comparator operator: " ++ value.literal
  | missingTarget op =>
    "Comparator " ++ quoted op.symbol ++
      " requires a target version; use AnyComparator to match any version"
  | badPartial text => "Invalid version in range: " ++ quoted text
  | badFull text => "Invalid version in range: " ++ quoted text
  | suffixOnWildcard text => "Prerelease or build on a wildcard version: " ++ quoted text
  | hyphenWithoutLower group => "Hyphen without a lower bound in " ++ quoted group
  | hyphenWithoutUpper group => "Hyphen without an upper bound in " ++ quoted group

/-- Why a manifest cannot be had. -/
inductive ManifestFault
  | unreadable (path : String) (fault : FileFault)
  | badYaml (path : String)
  | badJson (path : String) (fault : JsonFault)
  | invalid (violations : List Violation)
  | badVersion (fault : VersionFault)
  | badRange (name : Value) (fault : RangeFault)

def ManifestFault.message : ManifestFault → String
  | unreadable path fault => "Failed to read manifest " ++ path ++ ": " ++ fault.message
  | badYaml path => "Invalid YAML in manifest " ++ path
  | badJson path fault => "Invalid JSON in manifest " ++ path ++ ": " ++ fault.message
  | invalid violations =>
    "Manifest failed validation:\n" ++ "\n".intercalate (violations.map Violation.line)
  | badVersion fault => "Invalid plugin version: " ++ fault.message
  | badRange name fault =>
    "Invalid range for dependency '" ++ name.plain ++ "': " ++ fault.message

/-- Why settings cannot be loaded. -/
inductive SettingsFault
  | notFound (path : String)
  | unreadable (fault : FileFault)
  | badJson (fault : JsonFault)
  | notObject
  | includePrerelease
  | cacheSize
  | unknownKeys (names : List String)
  | environment (value : String)

/-- The variable that names the settings file. -/
def settingsPathVariable : String := "NPM_RANGE_CONFIG"

/-- The variable that overrides whether prereleases are included. -/
def includePrereleaseVariable : String := "NPM_RANGE_INCLUDE_PRERELEASE"

def SettingsFault.message : SettingsFault → String
  | notFound path => "Configuration file not found: " ++ path
  | unreadable fault => "Failed to read configuration file: " ++ fault.message
  | badJson fault => "Invalid JSON in configuration file: " ++ fault.message
  | notObject => "Configuration must be a JSON object"
  | includePrerelease => "'includePrerelease' must be a boolean"
  | cacheSize => "'cacheSize' must be a non-negative integer"
  | unknownKeys names => "Unknown configuration key(s): " ++ ", ".intercalate names
  | environment value => includePrereleaseVariable ++ " has invalid value: " ++ quoted value

/-- Why parts do not make a plugin. -/
inductive PluginFault
  | emptyName
  | noAuthors
  | emptyAuthor
  | emptyDependency
  deriving DecidableEq, Repr

def PluginFault.message : PluginFault → String
  | emptyName => "Plugin name must be non-empty"
  | noAuthors => "Plugin must list at least one author"
  | emptyAuthor => "Authors must be non-empty strings"
  | emptyDependency => "Dependency names must be non-empty strings"

/-- A value used as something that it is not. -/
inductive SortFault
  | notIterable (kind : String)
  | notHashable (kind : String)
  | notOrdered (symbol left right : String)
  /-- A moment in a known zone was compared with one in no known zone. -/
  | mixedZones
  | momentAndDate
  | noEntries (kind : String)
  | notPath (kind : String)
  /-- A pattern was looked for in something that is no text. -/
  | notSearchable (kind : String)
  | notWritable (kind : String)
  | notWritableKey (kind : String)
  deriving DecidableEq, Repr

def SortFault.message : SortFault → String
  | notIterable kind => "'" ++ kind ++ "' object is not iterable"
  | notHashable kind => "unhashable type: '" ++ kind ++ "'"
  | notOrdered symbol left right =>
    "'" ++ symbol ++ "' not supported between instances of '" ++ left ++ "' and '" ++ right ++ "'"
  | mixedZones => "can't compare offset-naive and offset-aware datetimes"
  | momentAndDate => "can't compare datetime.datetime to datetime.date"
  | noEntries kind => "'" ++ kind ++ "' object has no attribute 'get'"
  | notPath kind => "expected str, bytes or os.PathLike object, not " ++ kind
  | notSearchable kind => "expected string or bytes-like object, got '" ++ kind ++ "'"
  | notWritable kind => "Object of type " ++ kind ++ " is not JSON serializable"
  | notWritableKey kind => "keys must be str, int, float, bool or None, not " ++ kind

/-- What there was no room left for. -/
inductive DepthTask
  /-- Following what is nested in a document. -/
  | following
  /-- Telling what a value is. -/
  | telling
  deriving DecidableEq, Repr

inductive Fault
  | version (fault : VersionFault)
  | range (fault : RangeFault)
  | manifest (fault : ManifestFault)
  | settings (fault : SettingsFault)
  | plugin (fault : PluginFault)
  | sort (fault : SortFault)
  | json (fault : JsonFault)
  /-- Lists and objects of a document are nested too deeply. -/
  | nesting (container : JsonContainer)
  /-- Values are nested too deeply for what is done with them. -/
  | depth (task : DepthTask)
  /-- A value that stands inside itself was to be written. -/
  | endless
  | encoding (fault : Utf8Fault)
  | numeral (fault : NumeralFault)
  | calendar (fault : CalendarFault)
  | file (fault : FileFault)
  /-- A text that is no integer in the given base. -/
  | badInteger (base : Nat) (text : String)
  /-- A text that is no floating-point number. -/
  | badFloat (text : String)
  /-- An empty text, or a sign alone, where a number is asked for. -/
  | emptyNumber
  /-- An integer beyond all floating-point numbers. -/
  | beyondFloats
  | badTruthValue (text : String)
  | badMoment
  /-- A number that no character has. -/
  | noCharacter (number : Nat)
  /-- A group of comparators without any comparator. -/
  | emptyGroup
  /-- A cache larger than any memory. -/
  | cacheTooLarge
  | badStatus (value : Value)
  /-- A name and a version are left out at a place where they are asked for. -/
  | missingPair (position : Nat)
  /-- A path with halves of surrogate pairs at a place, which no file has. -/
  | unnameable (place : Nat) (halves : List Nat)
  /-- A path with a NUL character, which no file has. -/
  | nulInPath
  deriving Inhabited

/-- The message of refused bytes: one byte is named, several are given by their
positions. -/
def Utf8Fault.message (fault : Utf8Fault) : String :=
  let place :=
    if fault.last ≤ fault.first then
      "byte 0x" ++ String.ofList (hexDigits 2 fault.byte.toNat) ++ " in position " ++
        fault.first.repr
    else "bytes in position " ++ fault.first.repr ++ "-" ++ fault.last.repr
  let problem :=
    match fault.problem with
    | .invalidStart => "invalid start byte"
    | .invalidContinuation => "invalid continuation byte"
    | .unexpectedEnd => "unexpected end of data"
  "'utf-8' codec can't decode " ++ place ++ ": " ++ problem

/-- The message of halves that no name of a file has. -/
def unnameableMessage (place : Nat) (halves : List Nat) : String :=
  let subject := match halves with
    | [half] =>
      "character '" ++ String.ofList (Quoted.numbered half) ++ "' in position " ++ place.repr
    | _ => "characters in position " ++ place.repr ++ "-" ++ (place + halves.length - 1).repr
  "'utf-8' codec can't encode " ++ subject ++ ": surrogates not allowed"

def DepthTask.message : DepthTask → String
  | following => "maximum recursion depth exceeded"
  | telling => "maximum recursion depth exceeded while getting the repr of an object"

def Fault.message : Fault → String
  | version fault => fault.message
  | range fault => fault.message
  | manifest fault => fault.message
  | settings fault => fault.message
  | plugin fault => fault.message
  | sort fault => fault.message
  | json fault => fault.message
  | nesting container =>
    "maximum recursion depth exceeded while decoding a JSON " ++ container.name ++
      " from a unicode string"
  | depth task => task.message
  | endless => "Circular reference detected"
  | encoding fault => fault.message
  | numeral fault => fault.message
  | calendar fault => fault.message
  | file fault => fault.message
  | badInteger base text =>
    "invalid literal for int() with base " ++ base.repr ++ ": " ++
      String.ofList ((quotedChars text.toList).take 200)
  | badFloat text => "could not convert string to float: " ++ quoted text
  | emptyNumber => "string index out of range"
  | beyondFloats => "int too large to convert to float"
  | badTruthValue text => quoted text
  | badMoment => "'NoneType' object has no attribute 'groupdict'"
  | noCharacter number =>
    if number < 0x80000000 then "chr() arg not in range(0x110000)"
    else "Python int too large to convert to C int"
  | emptyGroup => "list index out of range"
  | cacheTooLarge => "cannot fit 'int' into an index-sized integer"
  | badStatus value => "Invalid status: " ++ value.plain
  | missingPair position =>
    "dictionary update sequence element #" ++ position.repr ++ " has length 0; 2 is required"
  | unnameable place halves => unnameableMessage place halves
  | nulInPath => "embedded null byte"

/-- A value on its way into a text, where every integer in it must be writable. -/
def checkWritable (value : Value) : Except Fault Unit :=
  if value.isWritable then .ok () else .error (.numeral .tooLargeToWrite)

/-- A numeral fault, let through as it is. -/
def liftNumeral {α : Type} : Except NumeralFault α → Except Fault α :=
  Except.mapError .numeral

end VersionRange
