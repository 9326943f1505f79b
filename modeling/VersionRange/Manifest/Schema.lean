import VersionRange.Value.Order

/-!
# The manifest schema

A manifest document is an object with a name and a version, which are non-empty
texts, a non-empty list of authors, which are non-empty texts, and a description,
which is a text.  It may have dependencies, an object with non-empty keys and with
texts for values.  Other keys are allowed.

A document that does not follow the schema is refused with all its violations,
sorted by their places in the document.
-/

namespace VersionRange

/-- What a manifest document says, once its shape is known. -/
structure ManifestDocument where
  name : String
  version : String
  authors : List String
  description : String
  dependencies : List (Value × String)

namespace Schema

def isText : Value → Bool
  | .text _ => true
  | _ => false

/-- A text is asked for. -/
def textViolations (path : List PathStep) (value : Value) : List Violation :=
  if isText value then [] else [⟨path, .wrongSort value .text⟩]

/-- A non-empty text is asked for. -/
def nonEmptyTextViolations (path : List PathStep) (value : Value) : List Violation :=
  match value with
  | .text "" => [⟨path, .empty value⟩]
  | _ => textViolations path value

/-- A non-empty list of non-empty texts is asked for. -/
def authorsViolations (path : List PathStep) (value : Value) : List Violation :=
  match value with
  | .list [] => [⟨path, .empty value⟩]
  | .list items =>
    (items.zipIdx.map fun (item, position) =>
      nonEmptyTextViolations (path ++ [.index position]) item).flatten
  | _ => [⟨path, .wrongSort value .list⟩]

/-- The steps to the entry at a key.  Nothing is no step. -/
def keySteps : Value → List PathStep
  | .null => []
  | key => [.key key]

/-- An object with non-empty keys and with texts for values is asked for. -/
def dependenciesViolations (path : List PathStep) (value : Value) : List Violation :=
  match value with
  | .object entries =>
    (entries.map fun (key, _) =>
      match key with
      | .text "" => [⟨path, .empty key⟩]
      | _ => []).flatten ++
    (entries.map fun (key, value) => textViolations (path ++ keySteps key) value).flatten
  | _ => [⟨path, .wrongSort value .object⟩]

/-- The keys that a document must have. -/
def requiredKeys : List String := ["name", "version", "authors", "description"]

/-- What the schema asks of the value at each key that it knows. -/
def properties : List (String × (List PathStep → Value → List Violation)) :=
  [("name", nonEmptyTextViolations), ("version", nonEmptyTextViolations),
   ("authors", authorsViolations), ("description", textViolations),
   ("dependencies", dependenciesViolations)]

/-- The violations of a document in the order of the schema. -/
def violations (document : Value) : List Violation :=
  match document with
  | .object entries =>
    (requiredKeys.filter fun name => (Value.entry? name entries).isNone).map
      (fun name => ⟨[], .missing name⟩) ++
    (properties.map fun (name, check) =>
      match Value.entry? name entries with
      | some value => check [.key (.text name)] value
      | none => []).flatten
  | _ => [⟨[], .wrongSort document .object⟩]

def stepValue : PathStep → Value
  | .key value => value
  | .index position => .int position

/-- Whether a place comes before another: at the first step where they differ, or
by being the shorter one. -/
def placeLess : List PathStep → List PathStep → Except Fault Bool
  | _, [] => .ok false
  | [], _ :: _ => .ok true
  | a :: as, b :: bs =>
    let x := stepValue a
    let y := stepValue b
    if x.sameKey y then placeLess as bs else (x.less y).mapError .sort

def textOf? : Value → Option String
  | .text s => some s
  | _ => none

/-- The authors of a document that follows the schema. -/
def authorsOf? : Value → Option (List String)
  | .list items => items.mapM textOf?
  | _ => none

/-- The dependencies of a document that follows the schema. -/
def dependenciesOf? : Value → Option (List (Value × String))
  | .object entries => entries.mapM fun (key, value) => (textOf? value).map fun s => (key, s)
  | _ => none

/-- What a document says, if every part of it has the right sort. -/
def read? (document : Value) : Option ManifestDocument := do
  match document with
  | .object entries =>
    let name ← (← Value.entry? "name" entries) |> textOf?
    let version ← (← Value.entry? "version" entries) |> textOf?
    let authors ← (← Value.entry? "authors" entries) |> authorsOf?
    let description ← (← Value.entry? "description" entries) |> textOf?
    let dependencies ← match Value.entry? "dependencies" entries with
      | some value => dependenciesOf? value
      | none => some []
    return ⟨name, version, authors, description, dependencies⟩
  | _ => none

/-- A step on its way into a text.  Positions are short enough to be written. -/
def checkStep : PathStep → Except Fault Unit
  | .key value => checkWritable value
  | .index _ => .ok ()

/-- A value that a violation is about, on its way into a text.  There must be room on the
stack for what is nested in it. -/
def checkTellable (fits : Value → Bool) (value : Value) : Except Fault Unit :=
  if fits value then checkWritable value else .error (.depth .telling)

/-- The violations in the order of their places.  What a violation finds fault with is
told before the order is known, and the place after it. -/
def sortedWithin (fits : Value → Bool) (found : List Violation) :
    Except Fault (List Violation) := do
  for violation in found do
    checkTellable fits violation.problem.value
  let violations ← sortChecked (fun a b => placeLess a.path b.path) found
  for violation in violations do
    for step in violation.path do
      checkStep step
  return violations

/-- What a document says, if it follows the schema, else all its violations.  Values that
fit on the stack can be told. -/
def validateWithin (fits : Value → Bool) (document : Value) : Except Fault ManifestDocument := do
  match violations document, read? document with
  | [], some read => return read
  | found, _ => throw (.manifest (.invalid (← sortedWithin fits found)))

/-- A stack on which every value fits. -/
def everyFits (_ : Value) : Bool :=
  true

def validate : Value → Except Fault ManifestDocument :=
  validateWithin everyFits

end Schema

end VersionRange
