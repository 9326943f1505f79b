import VersionRange.Manifest.Basic
import VersionRange.Manifest.Schema
import VersionRange.Files.Content
import VersionRange.Yaml.Document

/-!
# Reading manifests

A manifest is read from a document that follows the schema, and a document from a
JSON file or, by the ending of its name, a YAML file.  The version of the plugin is
read first, then the ranges of its dependencies in their order.

What the program cannot settle by itself is left to its readers: how YAML is read, and how
much of what is nested fits on the stack.
-/

namespace VersionRange

namespace Manifest

/-- The version of the plugin. -/
def readVersion (text : String) : Except Fault Version :=
  (Version.parse text).mapError fun
    | .version fault => .manifest (.badVersion fault)
    | other => other

/-- The fault of a bad range, which names the plugin. -/
def rangeFault (name : Value) (fault : RangeFault) : Fault :=
  if name.isWritable then .manifest (.badRange name fault) else .numeral .tooLargeToWrite

/-- The range required of a plugin. -/
def readRange (options : ParseOptions) (name : Value) (text : String) : Noting Range :=
  ExceptT.adapt (fun
    | .range fault => rangeFault name fault
    | other => other) (Range.parseNoting options text)

/-- Builds a manifest from a document, of which the values that fit on the stack can be
told. -/
def ofDocumentWithin (fits : Value → Bool) (options : ParseOptions) (document : Value) :
    Noting Manifest := do
  let read ← Noting.lift (Schema.validateWithin fits document)
  let version ← Noting.lift (readVersion read.version)
  let dependencies ← read.dependencies.mapM fun (name, text) => do
    return (name, ← readRange options name text)
  Noting.lift (ofParts read.name version read.authors read.description dependencies)

def ofDocument : ParseOptions → Value → Noting Manifest :=
  ofDocumentWithin Schema.everyFits

/-- What loading a manifest relies on. -/
structure Readers where
  /-- How many lists and objects may be open at once in JSON. -/
  nesting : Nat := Json.nestingLimit
  yaml : List Char → Except Yaml.YamlFault Value := Yaml.readChars
  /-- The values that fit on the stack when they are told. -/
  fits : Value → Bool := Schema.everyFits

/-- The endings of the names of YAML files. -/
def yamlSuffixes : List String := [".yaml", ".yml"]

def isYaml (path : Path) : Bool :=
  yamlSuffixes.contains (String.ofList (path.suffix.toList.map Char.toLower))

/-- Reads the text of a manifest as the document that it holds. -/
def documentOf (readers : Readers) (path : Path) (chars : List Char) : Except Fault Value :=
  if isYaml path then
    (readers.yaml chars).mapError fun
      | .malformed => .manifest (.badYaml path.text)
      | .badValue fault => fault
  else
    (Json.readCharsWithin readers.nesting chars).mapError fun
      | .json fault => .manifest (.badJson path.text fault)
      | other => other

/-- Reads the document of the file at a path. -/
def readDocument (readers : Readers) (files : Files) (path : Path) : Except Fault Value := do
  if let some (place, halves) := files.unnameable? path then throw (.unnameable place halves)
  if path.text.toList.contains '\x00' then throw .nulInPath
  let bytes ← (files.read path).mapError fun fault => .manifest (.unreadable path.text fault)
  documentOf readers path (← contentChars bytes)

/-- Reads the manifest in the file at a path. -/
def loadWith (readers : Readers) (options : ParseOptions) (files : Files) (path : Path) :
    Noting Manifest := do
  ofDocumentWithin readers.fits options (← Noting.lift (readDocument readers files path))

def load : ParseOptions → Files → Path → Noting Manifest :=
  loadWith {}

end Manifest

end VersionRange
