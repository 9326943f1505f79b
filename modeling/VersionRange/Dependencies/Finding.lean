import VersionRange.Manifest.Basic

/-!
# Findings about dependencies

Each plugin that a manifest needs is looked up among the installed ones.  A finding
tells what is required, what is installed and whether the two go together.
-/

namespace VersionRange

inductive Status
  | ok
  | missing
  | incompatible
  deriving DecidableEq, Repr

namespace Status

def text : Status → String
  | ok => "ok"
  | missing => "missing"
  | incompatible => "incompatible"

/-- The status with the given text. -/
def ofText? (text : String) : Option Status :=
  [ok, missing, incompatible].find? fun status => status.text == text

/-- The status that a value names.  Values that cannot be keys cannot be looked up. -/
def ofValue (value : Value) : Except Fault Status :=
  if !value.isKey then .error (.sort (.notHashable value.kind))
  else
    match value with
    | .text text =>
      match ofText? text with
      | some status => .ok status
      | none => .error (.badStatus value)
    | _ => .error (.badStatus value)

theorem ofText?_text (status : Status) : ofText? status.text = some status := by
  cases status <;> decide +kernel

end Status

/-- What was found out about one dependency. -/
structure Finding where
  name : Value
  required : String
  /-- The installed version as it was given, if there is one. -/
  installed : Option String
  status : Status

namespace Finding

def isOk (finding : Finding) : Bool :=
  finding.status == .ok

/-- The installed version that a value stands for.  One that cannot be read is noted
and counts as none. -/
def installedVersion (name value : Value) : Noting (Option Version) := do
  match value with
  | .version v => return some v
  | other =>
    match Version.ofValue other with
    | .ok v => return some v
    | .error (.version fault) =>
      Noting.note (.ignoredInstalled name fault)
      return none
    | .error other => throw other

/-- Looks up one dependency among the installed plugins.  What is installed is written into
the finding, so that every integer in it must be writable. -/
def ofDependency (installed : List (Value × Value)) (name : Value) (range : Range) :
    Noting Finding := do
  match installed.find? fun entry => entry.1.sameKey name with
  | none => return ⟨name, range.text, none, .missing⟩
  | some (_, value) =>
    let version ← installedVersion name value
    let status := if version.any range.includes then Status.ok else .incompatible
    Noting.lift (checkWritable value)
    return ⟨name, range.text, some value.plain, status⟩

/-- One finding for each dependency of the manifest, in the order of declaration. -/
def ofManifest (manifest : Manifest) (installed : List (Value × Value)) :
    Noting (List Finding) :=
  manifest.dependencies.mapM fun (name, range) => ofDependency installed name range

end Finding

end VersionRange
