import VersionRange.CommandLine.Grammar

/-!
# The arguments of the program

The program has two commands: `match` checks versions against a range, `deps` checks
the dependencies of a manifest against installed plugins.
-/

namespace VersionRange.CommandLine

inductive Command
  /-- Check versions against a range. -/
  | versions (range : String) (versions : List String)
  /-- Check the dependencies of the manifest at a path against the given names and
  versions, of which each may be left out. -/
  | dependencies (manifest : String) (installed : List (Option (String × String)))
  deriving DecidableEq, Repr

/-- What a command is told. -/
structure CommandArguments where
  includePrerelease : Bool := false
  /-- The range or the path of the manifest. -/
  subject : String := ""
  versions : List String := []
  installed : List (Option (String × String)) := []

structure Arguments where
  /-- The settings file that is asked for, if one is.  Its path may be left out. -/
  config : Option (Option String) := none
  includePrerelease : Bool := false
  verbose : Bool := false
  command : Command := .versions "" []
  /-- Words that the command does not take. -/
  extras : List String := []

def programName : String := "check.py"

/-- An option without an argument. -/
def flag {σ : Type} (names : List String) (change : σ → σ) : CommandOption σ :=
  { names := names, takesArgument := false, take := fun _ state => .ok (change state) }

/-- The option that asks for help. -/
def helpOption {σ : Type} : CommandOption σ :=
  { names := ["-h", "--help"], takesArgument := false, take := fun _ state => .ok state,
    asksHelp := true }

/-- A name and a version with an equals sign between them, neither of them empty. -/
def readInstalled (text : String) : Except String (String × String) :=
  match Grammar.cutGiven text.toList with
  | (name, some version) =>
    if name.isEmpty || version.isEmpty then refused
    else .ok (String.ofList name, String.ofList version)
  | (_, none) => refused
where
  refused : Except String (String × String) :=
    .error ("expected NAME=VERSION, got " ++ quoted text)

/-- The option of both commands. -/
def commandPrerelease : CommandOption CommandArguments :=
  flag ["--include-prerelease"] fun state => { state with includePrerelease := true }

def installedOption : CommandOption CommandArguments where
  names := ["--installed"]
  takesArgument := true
  take given state := do
    return { state with installed := state.installed ++ [← given.mapM readInstalled] }

/-- The positional argument that a command is about. -/
def subject (name : String) : Positional CommandArguments where
  name := name
  arity := .one
  take values state := .ok { state with subject := values.headD "" }

def versionsArgument : Positional CommandArguments where
  name := "versions"
  arity := .oneOrMore
  take values state := .ok { state with versions := values }

variable (release : Release)

/-- The commands with their grammars. -/
def commands : List (String × Grammar CommandArguments × (CommandArguments → Command)) :=
  [("match",
    ⟨programName ++ " match", [helpOption, commandPrerelease],
      [subject "range", versionsArgument], release⟩,
    fun found => .versions found.subject found.versions),
   ("deps",
    ⟨programName ++ " deps", [helpOption, commandPrerelease, installedOption],
      [subject "manifest"], release⟩,
    fun found => .dependencies found.subject found.installed)]

/-- Why a word is not a command. -/
def unknownCommand (word : String) : Stop :=
  .usage programName ("argument command: invalid choice: " ++ quoted word ++ " (choose from " ++
    ", ".intercalate ((commands release).map fun command => quoted command.1) ++ ")")

/-- Reads a command and all its arguments. -/
def takeCommand (words : List String) (arguments : Arguments) : Except Stop Arguments := do
  let word := words.headD ""
  match (commands release).lookup word with
  | none => throw (unknownCommand release word)
  | some (grammar, build) =>
    let (found, extras) ← grammar.readKnown {} words.tail
    return { arguments with
      command := build found
      includePrerelease := arguments.includePrerelease || found.includePrerelease
      extras := extras }

/-- The grammar of the program. -/
def programGrammar : Grammar Arguments where
  program := programName
  options :=
    [helpOption,
     { names := ["--config"]
       takesArgument := true
       take := fun given state => .ok { state with config := some given } },
     flag ["--include-prerelease"] fun state => { state with includePrerelease := true },
     flag ["-v", "--verbose"] fun state => { state with verbose := true }]
  positionals := [{ name := "command", arity := .rest, take := takeCommand release }]
  release := release

/-- Reads the arguments of the program, which must all be taken. -/
def Arguments.read (words : List String) : Except Stop Arguments := do
  let (arguments, extras) ← (programGrammar release).readKnown {} words
  let extras := extras ++ arguments.extras
  if !extras.isEmpty then
    throw ((programGrammar release).refuse ("unrecognized arguments: " ++ " ".intercalate extras))
  return arguments

end VersionRange.CommandLine
