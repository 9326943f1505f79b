import VersionRange.Range

/-!
# Plugin manifests

A manifest tells who a plugin is and which versions of other plugins it needs.
-/

namespace VersionRange

structure Manifest where
  name : String
  version : Version
  authors : List String
  description : String
  /-- The range required of each plugin, in the order of declaration. -/
  dependencies : List (Value × Range)

namespace Manifest

/-- A manifest from its parts.  Neither the name nor an author nor the name of a
dependency may be empty, and there is an author. -/
def ofParts (name : String) (version : Version) (authors : List String) (description : String)
    (dependencies : List (Value × Range)) : Except Fault Manifest :=
  if name.isEmpty then .error (.plugin .emptyName)
  else if authors.isEmpty then .error (.plugin .noAuthors)
  else if authors.any String.isEmpty then .error (.plugin .emptyAuthor)
  else if dependencies.any fun d => !d.1.isTruthy then .error (.plugin .emptyDependency)
  else .ok ⟨name, version, authors, description, dependencies⟩

/-- The manifest as a document, with the canonical text of every range. -/
def toDocument (m : Manifest) : Value :=
  .object
    [(.text "name", .text m.name), (.text "version", .text m.version.text),
     (.text "authors", .list (m.authors.map .text)), (.text "description", .text m.description),
     (.text "dependencies", .object (m.dependencies.map fun (name, range) =>
       (name, .text range.text)))]

end Manifest

end VersionRange
