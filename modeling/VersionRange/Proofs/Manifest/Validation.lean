import VersionRange.Proofs.Manifest.Places
import VersionRange.Proofs.Manifest.Reloading
import VersionRange.Proofs.Outcome

/-!
# Documents of JSON against the schema

A document of JSON is accepted if it follows the schema.  Otherwise it is refused as a
manifest, with one violation for each constraint that it violates, in the order of their
places.  What is accepted has the parts of a manifest: building it may still fail on its
version or on a range, but on no name.
-/

namespace VersionRange

open Fallible

namespace Schema

variable {fits : Value → Bool}

theorem exists_validate_iff {document : Value} :
    (∃ read, validateWithin fits document = .ok read) ↔
      ∃ entries, document = .object entries ∧ Follows entries := by
  simp only [Manifest.validate_eq_ok_iff, exists_and_left, violations_eq_nil_iff]
  refine and_iff_left_of_imp ?_
  rintro ⟨entries, rfl, follows⟩
  obtain ⟨read, form, -⟩ := read?_of_follows follows
  exact ⟨read, form⟩

theorem validate_of_violations {document : Value} (some : violations document ≠ []) :
    validateWithin fits document = sortedWithin fits (violations document) >>= fun told =>
      .error (.manifest (.invalid told)) := by
  unfold validateWithin
  split
  next none _ => exact absurd none some
  next => rfl

/-- What is said by a document that is accepted. -/
theorem said_of_validate {document : Value} {read : ManifestDocument}
    (accepted : validateWithin fits document = .ok read) :
    read.name ≠ "" ∧ read.authors ≠ [] ∧ "" ∉ read.authors ∧
      Value.text "" ∉ read.dependencies.map Prod.fst := by
  obtain ⟨none, form⟩ := Manifest.validate_eq_ok_iff.mp accepted
  obtain ⟨entries, rfl, follows⟩ := violations_eq_nil_iff.mp none
  obtain ⟨found, said, parts⟩ := read?_of_follows follows
  obtain rfl := Option.some.inj (form.symm.trans said)
  exact parts

theorem nodup_of_order {told : List Violation}
    (order : told.Pairwise fun a b => PlaceBefore a.path b.path ∨ InTurn a b) : told.Nodup := by
  refine order.imp ?_
  rintro a _ (before | ⟨-, first, second, isFirst, isSecond, turn⟩) rfl
  · exact placeBefore_irrefl _ before
  · obtain rfl := ViolationProblem.missing.inj (isFirst.symm.trans isSecond)
    exact Nat.lt_irrefl _ turn

/-- A place in a document whose keys are texts, as a line of a message gives it. -/
inductive Shown : List PathStep → String → Prop
  | root : Shown [] "<root>"
  | property {name : String} (some : name ≠ "") : Shown [.key (.text name)] name
  | author (position : Nat) :
      Shown [.key (.text "authors"), .index position]
        ("authors/" ++ String.ofList (numeralChars position))
  | dependency (name : String) :
      Shown [.key (.text "dependencies"), .key (.text name)] ("dependencies/" ++ name)

theorem line_below {top rest : String} {problem : ViolationProblem} {path : List PathStep}
    (texts : path.map PathStep.text = [top, rest]) :
    (⟨path, problem⟩ : Violation).line = "- " ++ (top ++ "/" ++ rest) ++ ": " ++ problem.text := by
  have place : "/".intercalate (path.map PathStep.text) = top ++ "/" ++ rest := by
    rw [texts]
    rfl
  have some : (top ++ "/" ++ rest).isEmpty = false := by simp
  simp only [Violation.line, place, some, Bool.false_eq_true, if_false]

theorem line_of_shown {v : Violation} {place : String} (shown : Shown v.path place) :
    v.line = "- " ++ place ++ ": " ++ v.problem.text := by
  obtain ⟨path, problem⟩ := v
  cases shown with
  | root => rfl
  | property some => simp [Violation.line, PathStep.text, Value.plain, some]
  | author position =>
      have front : "authors/" = "authors" ++ "/" := by decide
      rw [front]
      exact line_below rfl
  | dependency name =>
      have front : "dependencies/" = "dependencies" ++ "/" := by decide
      rw [front]
      exact line_below rfl

/-- A violation in a document of JSON is told on a line that begins with its place. -/
theorem shown_of_violated {document : Value} {v : Violation} (json : document.IsJson)
    (violated : Violated document v) : ∃ place, Shown v.path place := by
  cases violated with
  | notObject | missing => exact ⟨_, .root⟩
  | notText asked | emptyText asked =>
      refine ⟨_, .property ?_⟩
      rintro rfl
      simp at asked
  | authorsNotList | noAuthors => exact ⟨_, .property (by decide)⟩
  | authorNotText | emptyAuthor => exact ⟨_, .author _⟩
  | dependenciesNotObject | emptyKey => exact ⟨_, .property (by decide)⟩
  | rangeNotText entry dependency =>
      obtain ⟨s, rfl⟩ := ((isJson_of_found json entry).of_mem dependency).1
      exact ⟨_, .dependency s⟩

end Schema

namespace Manifest

variable {options : ParseOptions}

theorem fault_of_readVersion {text : String} {fault : Fault}
    (refused : readVersion text = .error fault) :
    (∃ cause, fault = .manifest cause) ∨ ∃ cause, fault = .numeral cause := by
  obtain ⟨own, unread, rfl⟩ := mapError_eq_error_iff.mp refused
  rcases Version.fault_of_parseChars unread with ⟨cause, rfl⟩ | ⟨cause, rfl⟩
  · exact .inl ⟨_, rfl⟩
  · exact .inr ⟨cause, rfl⟩

theorem readDependency_eq_error_iff {own : Value × String} {fault : Fault} :
    readDependency options own = .error fault ↔
      (∃ cause, Range.parse options own.2 = .error (.range cause) ∧
          rangeFault own.1 cause = fault) ∨
        (∃ cause, Range.parse options own.2 = .error (.numeral cause) ∧ .numeral cause = fault) ∨
          (Range.parse options own.2 = .error .emptyGroup ∧ .emptyGroup = fault) := by
  simp only [readDependency, bind_eq_error_iff, pure_eq_ok, reduceCtorEq, and_false, exists_false,
    or_false, mapError_eq_error_iff]
  constructor
  · rintro ⟨cause, unread, rfl⟩
    rcases Range.fault_of_parse unread with ⟨own, rfl⟩ | ⟨own, rfl⟩ | rfl
    · exact .inl ⟨own, unread, rfl⟩
    · exact .inr (.inl ⟨own, unread, rfl⟩)
    · exact .inr (.inr ⟨unread, rfl⟩)
  · rintro (⟨cause, unread, rfl⟩ | ⟨cause, unread, rfl⟩ | ⟨unread, rfl⟩)
    · exact ⟨_, unread, rfl⟩
    · exact ⟨_, unread, rfl⟩
    · exact ⟨_, unread, rfl⟩

theorem ofParts_eq_error_iff {name : String} {version : Version} {authors : List String}
    {description : String} {dependencies : List (Value × Range)} {fault : Fault}
    (someName : name ≠ "") (someAuthors : authors ≠ []) (someAuthor : "" ∉ authors) :
    ofParts name version authors description dependencies = .error fault ↔
      (∃ dependency ∈ dependencies, dependency.1.isTruthy = false) ∧
        fault = .plugin .emptyDependency := by
  have author : ¬authors.any String.isEmpty = true := by
    simpa [List.any_eq_true] using someAuthor
  rw [ofParts, if_neg (by simpa using someName), if_neg (by simpa using someAuthors),
    if_neg author]
  split
  next found =>
    have falsy : ∃ dependency ∈ dependencies, dependency.1.isTruthy = false := by
      simpa [List.any_eq_true] using found
    rw [and_iff_right falsy, Except.error.injEq, eq_comm]
  next none =>
    have truthy : ¬∃ dependency ∈ dependencies, dependency.1.isTruthy = false := by
      simpa [List.any_eq_true] using none
    simp [truthy]

theorem keys_of_mapM {own : List (Value × String)} {dependencies : List (Value × Range)}
    (read : own.mapM (readDependency options) = .ok dependencies) :
    dependencies.map Prod.fst = own.map Prod.fst := by
  have each := mapM_eq_ok_iff.mp read
  induction each with
  | nil => rfl
  | cons head tail ih =>
      rw [List.map_cons, List.map_cons, ih (mapM_eq_ok_iff.mpr tail),
        (readDependency_eq_ok_iff.mp head).1]

end Manifest

namespace Schema

/-- The keys that a document of JSON declares are texts. -/
theorem texts_of_validate {document : Value} {read : ManifestDocument} (json : document.IsJson)
    (accepted : validate document = .ok read) :
    ∀ own ∈ read.dependencies, ∃ s, own.1 = .text s := by
  have declared := Manifest.declared_of_read? (Manifest.validate_eq_ok_iff.mp accepted).2
  intro own member
  have among : (own.1, Value.text own.2) ∈ Manifest.declared document := by
    rw [declared]
    exact List.mem_map_of_mem (f := fun own => (own.1, Value.text own.2)) member
  unfold Manifest.declared at among
  split at among
  next entries =>
    split at among
    next dependencies entry =>
      exact ((isJson_of_found json entry).of_mem among).1
    · cases among
  · cases among

/-- What is accepted of a document of JSON does not fail on a name, an author or the name of a
dependency. -/
theorem exists_ofParts {document : Value} {read : ManifestDocument} (json : document.IsJson)
    (accepted : validate document = .ok read) (version : Version)
    {dependencies : List (Value × Range)}
    (declared : dependencies.map Prod.fst = read.dependencies.map Prod.fst) :
    ∃ m, Manifest.ofParts read.name version read.authors read.description dependencies = .ok m := by
  obtain ⟨name, authors, author, keys⟩ := said_of_validate accepted
  cases parts : Manifest.ofParts read.name version read.authors read.description dependencies with
  | ok m => exact ⟨m, rfl⟩
  | error fault =>
      obtain ⟨⟨dependency, member, falsy⟩, -⟩ :=
        (Manifest.ofParts_eq_error_iff name authors author).mp parts
      have isKey : dependency.1 ∈ read.dependencies.map Prod.fst :=
        declared ▸ List.mem_map_of_mem member
      obtain ⟨own, among, same⟩ := List.mem_map.mp isKey
      obtain ⟨s, isText⟩ := texts_of_validate json accepted own among
      rw [← same, isText] at falsy
      have empty : s = "" := by simpa [Value.isTruthy] using falsy
      exact absurd (List.mem_map.mpr ⟨own, among, by rw [isText, empty]⟩) keys

/-- A document of JSON is accepted if it follows the schema.  Otherwise it is refused with one
violation for each constraint that it violates: the places above come first, then they go by
keys and positions, and missing keys, which alone share a place, by the schema.  The message has
a line for each, with its place and its problem.  A manifest that is built from an accepted
document does not fail on a name. -/
theorem validates_json {chars : List Char} {document : Value}
    (read : Json.readChars chars = .ok document) :
    ((∃ said, validate document = .ok said) ↔
        ∃ entries, document = .object entries ∧ Follows entries) ∧
      ((¬∃ entries, document = .object entries ∧ Follows entries) →
        ∃ told, validate document = .error (.manifest (.invalid told)) ∧
          (∀ v, v ∈ told ↔ Violated document v) ∧ told.Nodup ∧
            (told.Pairwise fun a b => PlaceBefore a.path b.path ∨ InTurn a b) ∧
            (Fault.manifest (.invalid told)).message = "Manifest failed validation:\n" ++
              "\n".intercalate (told.map Violation.line) ∧
            ∀ v ∈ told, ∃ place, Shown v.path place ∧
              v.line = "- " ++ place ++ ": " ++ v.problem.text) ∧
        (∀ said version dependencies, validate document = .ok said →
          dependencies.map Prod.fst = said.dependencies.map Prod.fst →
            ∃ m, Manifest.ofParts said.name version said.authors said.description dependencies =
              .ok m) ∧
          ∀ options cause,
            (Noting.collect (Manifest.ofDocument options document)).1 ≠ .error (.plugin cause) := by
  have json := Json.isJson_of_readChars read
  refine ⟨exists_validate_iff, ?_, ?_, ?_⟩
  · intro wrong
    have some : violations document ≠ [] := fun none => wrong (violations_eq_nil_iff.mp none)
    obtain ⟨told, inOrder, kept, order⟩ := exists_sorted json
    have refused : validate document = .error (.manifest (.invalid told)) := by
      refine (validate_of_violations some).trans ?_
      rw [inOrder]
      rfl
    refine ⟨told, refused, fun v => ?_, nodup_of_order order, order, rfl, fun v member => ?_⟩
    · rw [kept.mem_iff, mem_violations_iff]
    · obtain ⟨place, shown⟩ :=
        shown_of_violated json (mem_violations_iff.mp (kept.mem_iff.mp member))
      exact ⟨place, shown, line_of_shown shown⟩
  · exact fun said version dependencies accepted declared =>
      exists_ofParts json accepted version declared
  · intro options cause fails
    rw [(Manifest.comesTo_ofDocument options document).collect] at fails
    simp only [Manifest.outcome, bind_eq_error_iff] at fails
    rcases fails with refused | ⟨said, accepted, badVersion | ⟨version, -, badRange |
      ⟨dependencies, each, badParts⟩⟩⟩
    · by_cases some : violations document = []
      · obtain ⟨said, accepted⟩ := exists_validate_iff.mpr (violations_eq_nil_iff.mp some)
        rw [accepted] at refused
        cases refused
      · obtain ⟨told, inOrder, -⟩ := exists_sorted json
        rw [validate_of_violations some, inOrder] at refused
        cases refused
    · rcases Manifest.fault_of_readVersion badVersion with ⟨_, ⟨⟩⟩ | ⟨_, ⟨⟩⟩
    · obtain ⟨_, own, _, -, unread, -⟩ := mapM_eq_error_iff.mp badRange
      rcases Manifest.readDependency_eq_error_iff.mp unread with ⟨_, -, wrong⟩ | ⟨_, -, wrong⟩ |
        ⟨-, wrong⟩
      · unfold Manifest.rangeFault at wrong
        split at wrong <;> cases wrong
      · cases wrong
      · cases wrong
    · obtain ⟨m, whole⟩ := exists_ofParts json accepted version (Manifest.keys_of_mapM each)
      rw [whole] at badParts
      cases badParts

/-- Four constraints are violated at once. -/
theorem validates_json_of_four_violations :
    ∃ document told,
      Json.readChars ("\x7b\"name\": \"\", \"version\": \"1.0.0\", \"authors\": [], ".toList ++
        "\"dependencies\": \x7b\"x\": 1\x7d\x7d".toList) = .ok document ∧
      validate document = .error (.manifest (.invalid told)) ∧
        told.Perm [⟨[], .missing "description"⟩, ⟨[.key (.text "name")], .empty (.text "")⟩,
          ⟨[.key (.text "authors")], .empty (.list [])⟩,
          ⟨[.key (.text "dependencies"), .key (.text "x")], .wrongSort (.int 1) .text⟩] ∧
          told.Pairwise fun a b => PlaceBefore a.path b.path ∨ InTurn a b := by
  have read : Json.readChars
      ("\x7b\"name\": \"\", \"version\": \"1.0.0\", \"authors\": [], ".toList ++
        "\"dependencies\": \x7b\"x\": 1\x7d\x7d".toList) =
      .ok (.object [(.text "name", .text ""), (.text "version", .text "1.0.0"),
        (.text "authors", .list []),
        (.text "dependencies", .object [(.text "x", .int 1)])]) := by
    simp only [String.reduceToList, List.cons_append, List.nil_append]
    rfl
  have wrong : ¬∃ entries, Value.object [(.text "name", .text ""), (.text "version", .text "1.0.0"),
      (.text "authors", .list []), (.text "dependencies", .object [(.text "x", .int 1)])] =
        .object entries ∧ Follows entries := by
    rw [← violations_eq_nil_iff]
    exact List.cons_ne_nil _ _
  obtain ⟨-, refused, -⟩ := validates_json read
  obtain ⟨told, outcome, members, distinct, order, -⟩ := refused wrong
  refine ⟨_, told, read, outcome, ?_, order⟩
  refine (List.perm_ext_iff_of_nodup distinct (by simp)).mpr fun v => ?_
  rw [members, ← mem_violations_iff]
  exact Iff.rfl

end Schema

end VersionRange
