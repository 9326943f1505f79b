import VersionRange.Text.Quoted
import VersionRange.Files.Path

/-!
# Files and environment

Everything the program may read from its surroundings, as a value: files and
environment variables.  A path is followed step by step from the working directory.
-/

namespace VersionRange

/-- Why a path does not lead to a readable file. -/
inductive FileReason
  | missing
  | notDirectory
  | isDirectory
  | nameTooLong
  | permission
  /-- Any other, by what the operating system says of it. -/
  | other (number : Nat) (words : String)
  deriving DecidableEq, Repr

/-- The number and the words that the operating system has for a reason. -/
def FileReason.description : FileReason → Nat × String
  | missing => (2, "No such file or directory")
  | notDirectory => (20, "Not a directory")
  | isDirectory => (21, "Is a directory")
  | nameTooLong => (36, "File name too long")
  | permission => (13, "Permission denied")
  | other number words => (number, words)

/-- The numbers of the reasons that are taken for the absence of a file: nothing there, no
open file, no directory on the way, and too many links. -/
def FileReason.absences : List Nat := [2, 9, 20, 40]

def FileReason.isAbsence (reason : FileReason) : Bool :=
  absences.contains reason.description.1

/-- What is found at the end of a path. -/
inductive FileEntry
  | file (bytes : List UInt8)
  | directory
  /-- Something that is there and cannot be read. -/
  | unreadable (reason : FileReason)
  /-- A directory in which nothing can be looked up. -/
  | closed (reason : FileReason)
  /-- Something that cannot be looked up itself. -/
  | barred (reason : FileReason)
  deriving DecidableEq, Repr

structure FileFault where
  reason : FileReason
  path : String
  deriving DecidableEq, Repr

def FileFault.message (fault : FileFault) : String :=
  let (number, words) := fault.reason.description
  "[Errno " ++ number.repr ++ "] " ++ words ++ ": " ++ quoted fault.path

structure Files where
  /-- The entries, each at its steps from the working directory.  A later entry at the
  same steps is shadowed by an earlier one. -/
  entries : List (List String × FileEntry)
  /-- What of a path no file name can have: where it begins, and the units there. -/
  unnameable? : Path → Option (Nat × List Nat) := Path.unnameable?

namespace Files

def empty : Files := { entries := [] }

/-- The working directory, a directory above it, or the root.  These are always there. -/
def isGround (steps : List String) : Bool :=
  steps.all (· = "..") || steps = ["/"]

def entryAt (files : Files) (steps : List String) : Option FileEntry :=
  if isGround steps then some .directory
  else (files.entries.find? fun e => e.1 = steps).map Prod.snd

/-- Puts an entry at a path and makes the directories above it. -/
def put (files : Files) (path : Path) (entry : FileEntry) : Files :=
  let above := (List.range path.steps.length).map fun n => path.steps.take n
  let missing := above.filter fun steps => (files.entryAt steps).isNone
  { files with
    entries :=
      (path.steps, entry) :: missing.map (fun steps => (steps, .directory)) ++ files.entries }

/-- The longest name that a directory can hold, and the longest path, in bytes. -/
def nameLimit : Nat := 255

def pathLimit : Nat := 4095

/-- Follows the steps from the directory `here`. -/
def follow (files : Files) : List String → List String → Except FileReason FileEntry
  | here, [] => match files.entryAt here with
    | none => .error .missing
    | some (.barred reason) => .error reason
    | some entry => .ok entry
  | here, name :: rest =>
    match files.entryAt here with
    | none => .error .missing
    | some (.file _) | some (.unreadable _) => .error .notDirectory
    | some (.closed reason) | some (.barred reason) => .error reason
    | some .directory =>
      if name = ".." && !isGround here then follow files here.dropLast rest
      else if nameLimit < name.utf8ByteSize then .error .nameTooLong
      else follow files (here ++ [name]) rest

/-- The entry that a path leads to. -/
def find (files : Files) (path : Path) : Except FileReason FileEntry :=
  if pathLimit < path.text.utf8ByteSize then .error .nameTooLong
  else files.follow [] path.steps

/-- The bytes of the file that a path leads to. -/
def read (files : Files) (path : Path) : Except FileFault (List UInt8) :=
  match files.find path with
  | .ok (.file bytes) => .ok bytes
  | .ok (.unreadable reason) => .error ⟨reason, path.text⟩
  | .ok _ => .error ⟨.isDirectory, path.text⟩
  | .error reason => .error ⟨reason, path.text⟩

end Files

/-- Environment variables, each with its value. -/
structure Environment where
  entries : List (String × String)
  deriving Repr

namespace Environment

def empty : Environment := ⟨[]⟩

def get? (environment : Environment) (name : String) : Option String :=
  environment.entries.lookup name

def unset (environment : Environment) (name : String) : Environment :=
  ⟨environment.entries.filter fun entry => entry.1 ≠ name⟩

def set (environment : Environment) (name value : String) : Environment :=
  ⟨(name, value) :: (environment.unset name).entries⟩

end Environment

/-- The surroundings of a run. -/
structure World where
  files : Files
  environment : Environment

end VersionRange
