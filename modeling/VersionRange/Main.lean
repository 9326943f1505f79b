import VersionRange.CommandLine.Run

/-!
# The program

The outer layer: it looks at the files and variables that a run needs, runs the
program and writes what comes of it.
-/

namespace VersionRange

/-- The permission that is missing, if that is what went wrong. -/
def refusal? : IO.Error → Option FileReason
  | .permissionDenied .. => some .permission
  | _ => none

/-- What is at a path of the file system. -/
def lookAt (path : Path) : IO (Option FileEntry) := do
  match ← (IO.FS.realPath path.text).toBaseIO with
  | .error fault => return (refusal? fault).map .barred
  | .ok found =>
    if ← found.isDir then return some .directory
    match ← (IO.FS.readBinFile found).toBaseIO with
    | .ok bytes => return some (.file bytes.toList)
    | .error fault => return (refusal? fault).map .unreadable

/-- The files with what is at a path and at the paths on the way to it. -/
def loadPath (files : Files) (path : Path) : IO Files :=
  (List.range (path.names.length + 1)).foldlM (fun files count => do
    let above : Path := { path with names := path.names.take count }
    match ← lookAt above with
    | some entry => return files.put above entry
    | none => return files) files

/-- The variables that the program knows. -/
def loadEnvironment : IO Environment :=
  [settingsPathVariable, includePrereleaseVariable].foldlM (fun environment name => do
    match ← IO.getEnv name with
    | some value => return environment.set name value
    | none => return environment) Environment.empty

end VersionRange

open VersionRange in
def main (words : List String) : IO UInt32 := do
  let environment ← loadEnvironment
  let files ← (CommandLine.neededPaths .earlier environment words).foldlM loadPath Files.empty
  match CommandLine.run .earlier ⟨files, environment⟩ words with
  | .ok outcome =>
    IO.print outcome.output
    IO.eprint (withoutStandIns outcome.errors)
    return UInt32.ofNat outcome.exitCode
  | .error fault =>
    IO.eprintln (withoutStandIns ("ERROR: " ++ fault.message))
    return 1
