import VersionRange.CommandLine.Arguments
import VersionRange.Dependencies.Report
import VersionRange.Json.Printer
import VersionRange.Manifest.Reader
import VersionRange.Session

/-!
# Running the program

The program ends with 0 if everything matches, with 10 if a version is not in the
range or a dependency has a problem, with 1 on invalid input and with 2 on arguments
that it does not understand.  Results go to the output; the journal and the messages
of faults go to the errors.
-/

namespace VersionRange.CommandLine

/-- What is written when help is asked for. -/
def usage : String :=
  "usage: " ++ programName ++ " [-h] [--config CONFIG] [--include-prerelease] [-v] COMMAND ...\n" ++
    "\n" ++
    "commands:\n" ++
    "  match RANGE VERSION...                      check versions against a range\n" ++
    "  deps MANIFEST [--installed NAME=VERSION]... check the dependencies of a manifest\n"

/-- What a run of the program ends with and writes. -/
structure Outcome where
  exitCode : Nat
  output : String
  errors : String
  /-- The fault that the errors tell of last, if it is one. -/
  fault : Option Fault := none

/-- The exit code if something does not match. -/
def mismatchCode (matched : Bool) : Nat :=
  if matched then 0 else 10

/-- What a command comes to: whether all matches, and the document to write. -/
abbrev Finished := Bool × Value

/-- Checks versions against a range.  A version that is given several times is listed
once. -/
def checkVersions (options : ParseOptions) (range : String) (versions : List String) :
    Noting Finished := do
  let range ← Range.parseNoting options range
  let results ← Noting.lift (versions.mapM fun text => do
    return (text, range.includes (← Version.parse text)))
  let entries := results.foldl
    (fun entries (text, included) => Value.setEntry (.text text) (.bool included) entries) []
  return (results.all Prod.snd, .object [(.text "range", .text range.text),
    (.text "results", .object entries)])

/-- The installed plugins, of which none may be left out. -/
def installedEntries (installed : List (Option (String × String))) :
    Except Fault (List (Value × Value)) :=
  match installed.findIdx? Option.isNone with
  | some position => .error (.missingPair position)
  | none => .ok (installed.reduceOption.foldl
      (fun entries (name, version) => Value.setEntry (.text name) (.text version) entries) [])

/-- Checks the dependencies of the manifest at a path. -/
def checkDependencies (options : ParseOptions) (files : Files) (manifest : String)
    (installed : List (Option (String × String))) : Noting Finished := do
  let manifest ← Manifest.load options files (Path.ofText manifest)
  let installed ← Noting.lift (installedEntries installed)
  let report := Report.ofFindings manifest (← Finding.ofManifest manifest installed)
  return (!report.hasProblems, report.toDocument)

def runCommand (options : ParseOptions) (files : Files) : Command → Noting Finished
  | .versions range versions => checkVersions options range versions
  | .dependencies manifest installed => checkDependencies options files manifest installed

/-- The lines of the journal that are shown: warnings, and all if asked for. -/
def shown (verbose : Bool) (journal : Journal) : String :=
  String.join ((journal.filter fun record => verbose || record.level == .warning).map
    fun record => record.line ++ "\n")

/-- Whether a fault is one of the input, which is told and ends the run. -/
def isInputFault : Fault → Bool
  | .version _ | .range _ | .manifest _ => true
  | _ => false

/-- The end of a run because of a fault that is told. -/
def failed (before : String) (fault : Fault) : Outcome :=
  ⟨1, "", before ++ "ERROR: " ++ fault.message ++ "\n", some fault⟩

/-- The path of the settings file that is asked for. -/
def configPath : Option (Option String) → Except Fault (Option String)
  | some none => .error (.sort (.notPath (Value.list []).kind))
  | some (some path) => .ok (some path)
  | none => .ok none

/-- Runs the program with arguments that it understands. -/
def runArguments (world : World) (arguments : Arguments) : Except Fault Outcome := do
  match Settings.load (← configPath arguments.config) world with
  | .error (.settings fault) => return failed "" (.settings fault)
  | .error other => throw other
  | .ok settings =>
    let options : ParseOptions := ⟨settings.includePrerelease || arguments.includePrerelease⟩
    let (finished, journal) := (runCommand options world.files arguments.command).collect
    let before := shown arguments.verbose journal
    match finished with
    | .ok (matched, document) =>
      return ⟨mismatchCode matched, (← Json.write document) ++ "\n", before, none⟩
    | .error fault => if isInputFault fault then return failed before fault else throw fault

/-- The paths that a run of the program looks at. -/
def neededPaths (release : Release) (environment : Environment) (words : List String) :
    List Path :=
  match Arguments.read release words with
  | .error _ => []
  | .ok arguments =>
    (Settings.path arguments.config.join environment).1 ::
      match arguments.command with
      | .dependencies manifest _ => [Path.ofText manifest]
      | .versions .. => []

/-- Runs the program.  A fault that is not told is the outcome itself. -/
def run (release : Release) (world : World) (words : List String) : Except Fault Outcome :=
  match Arguments.read release words with
  | .error .help => .ok ⟨0, usage, "", none⟩
  | .error (.usage program message) =>
    .ok ⟨2, "", program ++ ": error: " ++ message ++ "\n", none⟩
  | .ok arguments => runArguments world arguments

end VersionRange.CommandLine
