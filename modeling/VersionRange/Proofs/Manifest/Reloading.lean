import VersionRange.Manifest.Reader
import VersionRange.Proofs.Canonical
import VersionRange.Proofs.Noting

/-!
# Manifests written as documents

A manifest that was read is written as a document that follows the schema, with texts that
give its version and its ranges back.  So it is read again from that document, and its
ranges include what the ranges of the document that it first came from include.
-/

namespace VersionRange

open Fallible

namespace Manifest

/-- The range required of a plugin, aside from the journal. -/
def readDependency (options : ParseOptions) (own : Value × String) :
    Except Fault (Value × Range) := do
  let range ← (Range.parse options own.2).mapError fun
    | .range fault => rangeFault own.1 fault
    | other => other
  return (own.1, range)

/-- Reading a document aside from the journal. -/
def outcome (fits : Value → Bool) (options : ParseOptions) (document : Value) :
    Except Fault Manifest := do
  let read ← Schema.validateWithin fits document
  let version ← readVersion read.version
  let dependencies ← read.dependencies.mapM (readDependency options)
  ofParts read.name version read.authors read.description dependencies

theorem comesTo_ofDocumentWithin (fits : Value → Bool) (options : ParseOptions)
    (document : Value) :
    (ofDocumentWithin fits options document).ComesTo (outcome fits options document) := by
  apply (Noting.comesTo_lift _).bind
  intro read
  apply (Noting.comesTo_lift _).bind
  intro version
  apply Noting.ComesTo.bind
  · apply Noting.comesTo_mapM
    rintro ⟨name, text⟩
    apply ((Range.comesTo_parseNoting options text).adapt _).bind
    intro range
    exact Noting.comesTo_pure (name, range)
  · intro dependencies
    exact Noting.comesTo_lift _

theorem comesTo_ofDocument (options : ParseOptions) (document : Value) :
    (ofDocument options document).ComesTo (outcome Schema.everyFits options document) :=
  comesTo_ofDocumentWithin _ options document

/-- The form of the manifests that are read with the given options. -/
structure Normal (options : ParseOptions) (m : Manifest) : Prop where
  name : m.name ≠ ""
  version : m.version.Readable
  authors : m.authors ≠ []
  author : "" ∉ m.authors
  key : ∀ dependency ∈ m.dependencies, dependency.1.isTruthy = true
  range : ∀ dependency ∈ m.dependencies,
    Range.parse options dependency.2.text = .ok dependency.2

/-- What a manifest has in common with what was read of a document. -/
structure ReadFrom (options : ParseOptions) (read : ManifestDocument) (m : Manifest) : Prop where
  name : read.name = m.name
  version : m.version.Readable ∧ m.version.text = read.version
  authors : read.authors = m.authors
  description : read.description = m.description
  dependencies : List.Forall₂
    (fun own dependency =>
      own.1 = dependency.1 ∧ Range.parse options own.2 = .ok dependency.2)
    read.dependencies m.dependencies

variable {fits : Value → Bool}

theorem validate_eq_ok_iff {document : Value} {read : ManifestDocument} :
    Schema.validateWithin fits document = .ok read ↔
      Schema.violations document = [] ∧ Schema.read? document = some read := by
  unfold Schema.validateWithin
  cases found : Schema.violations document <;> cases said : Schema.read? document <;>
    simp [bind_eq_ok_iff]

theorem readVersion_eq_ok_iff {text : String} {v : Version} :
    readVersion text = .ok v ↔ v.Readable ∧ v.text = text := by
  rw [readVersion, mapError_eq_ok_iff, Version.parse_eq_ok_iff]

theorem ofParts_eq_ok_iff {name : String} {version : Version} {authors : List String}
    {description : String} {dependencies : List (Value × Range)} {m : Manifest} :
    ofParts name version authors description dependencies = .ok m ↔
      name ≠ "" ∧ authors ≠ [] ∧ "" ∉ authors ∧
        (∀ dependency ∈ dependencies, dependency.1.isTruthy = true) ∧
          ⟨name, version, authors, description, dependencies⟩ = m := by
  have pass {refused : Prop} [Decidable refused] {fault : Fault} {next : Except Fault Manifest} :
      (if refused then .error fault else next) = .ok m ↔ ¬refused ∧ next = .ok m := by
    split <;> simp [*]
  rw [ofParts, pass, pass, pass, pass, Except.ok.injEq]
  simp [List.isEmpty_iff, List.any_eq_true]

theorem readDependency_eq_ok_iff {options : ParseOptions} {own : Value × String}
    {dependency : Value × Range} :
    readDependency options own = .ok dependency ↔
      own.1 = dependency.1 ∧ Range.parse options own.2 = .ok dependency.2 := by
  obtain ⟨name, range⟩ := dependency
  simp only [readDependency, bind_eq_ok_iff, mapError_eq_ok_iff, pure_eq_ok, Except.ok.injEq,
    Prod.mk.injEq]
  constructor
  · rintro ⟨_, read, same, rfl⟩
    exact ⟨same, read⟩
  · rintro ⟨same, read⟩
    exact ⟨range, read, same, rfl⟩

theorem outcome_eq_ok_iff {options : ParseOptions} {document : Value} {m : Manifest} :
    outcome fits options document = .ok m ↔
      ∃ read, Schema.violations document = [] ∧ Schema.read? document = some read ∧
        ReadFrom options read m ∧ m.name ≠ "" ∧ m.authors ≠ [] ∧ "" ∉ m.authors ∧
          ∀ dependency ∈ m.dependencies, dependency.1.isTruthy = true := by
  simp only [outcome, bind_eq_ok_iff, validate_eq_ok_iff, readVersion_eq_ok_iff,
    mapM_eq_ok_iff, readDependency_eq_ok_iff, ofParts_eq_ok_iff]
  constructor
  · rintro ⟨read, ⟨follows, form⟩, version, ⟨readable, written⟩, dependencies, each, name, authors,
      author, keys, rfl⟩
    exact ⟨read, follows, form, ⟨rfl, ⟨readable, written⟩, rfl, rfl, each⟩, name, authors, author,
      keys⟩
  · rintro ⟨read, follows, form, common, name, authors, author, keys⟩
    rw [← common.name] at name
    rw [← common.authors] at authors author
    refine ⟨read, ⟨follows, form⟩, m.version, common.version, m.dependencies, common.dependencies,
      name, authors, author, keys, ?_⟩
    rw [common.name, common.authors, common.description]

theorem normal_of_outcome {options : ParseOptions} {document : Value} {m : Manifest}
    (read : outcome fits options document = .ok m) : m.Normal options := by
  obtain ⟨found, -, -, common, name, authors, author, keys⟩ := outcome_eq_ok_iff.mp read
  refine ⟨name, common.version.1, authors, author, keys, fun dependency member => ?_⟩
  have each := mapM_eq_ok_iff.mpr
    (common.dependencies.imp fun _ _ related => readDependency_eq_ok_iff.mpr related)
  obtain ⟨own, -, found⟩ := exists_item_of_mapM each member
  have ownRead := (readDependency_eq_ok_iff.mp found).2
  exact Range.parse_text_of_normal (Range.normal_of_parse ownRead) (Range.stamped_of_parse ownRead)

theorem nonEmptyTextViolations_text (path : List PathStep) {s : String} (nonempty : s ≠ "") :
    Schema.nonEmptyTextViolations path (.text s) = [] := by
  unfold Schema.nonEmptyTextViolations
  split
  · simp_all
  · rfl

theorem authorsViolations_texts (path : List PathStep) {authors : List String}
    (some : authors ≠ []) (nonempty : "" ∉ authors) :
    Schema.authorsViolations path (.list (authors.map .text)) = [] := by
  obtain ⟨author, rest, rfl⟩ := List.exists_cons_of_ne_nil some
  change (((author :: rest).map Value.text).zipIdx.map fun entry =>
    Schema.nonEmptyTextViolations (path ++ [.index entry.2]) entry.1).flatten = []
  rw [List.flatten_eq_nil_iff]
  simp only [List.mem_map, Prod.exists]
  rintro _ ⟨item, position, member, rfl⟩
  obtain ⟨name, among, rfl⟩ := List.mem_map.mp (List.fst_mem_of_mem_zipIdx member)
  apply nonEmptyTextViolations_text
  rintro rfl
  exact nonempty among

theorem dependenciesViolations_texts (path : List PathStep) {dependencies : List (Value × Range)}
    (keys : ∀ dependency ∈ dependencies, dependency.1.isTruthy = true) :
    Schema.dependenciesViolations path
      (.object (dependencies.map fun (name, range) => (name, .text range.text))) = [] := by
  rw [Schema.dependenciesViolations, List.append_eq_nil_iff, List.flatten_eq_nil_iff,
    List.flatten_eq_nil_iff]
  constructor
  · simp only [List.map_map, List.mem_map]
    rintro _ ⟨⟨name, range⟩, among, rfl⟩
    have truthy := keys _ among
    simp only [Function.comp_apply]
    split
    · cases truthy
    · rfl
  · simp only [List.map_map, List.mem_map]
    rintro _ ⟨⟨name, range⟩, among, rfl⟩
    rfl

variable {options : ParseOptions} {m : Manifest}

theorem violations_toDocument (normal : m.Normal options) :
    Schema.violations m.toDocument = [] := by
  have name := nonEmptyTextViolations_text [.key (.text "name")] normal.name
  have version : Schema.nonEmptyTextViolations [.key (.text "version")] (.text m.version.text) =
      [] := by
    apply nonEmptyTextViolations_text
    intro empty
    apply m.version.chars_ne_nil
    rw [← Version.toList_text, empty]
    rfl
  have authors := authorsViolations_texts [.key (.text "authors")] normal.authors
    normal.author
  have dependencies := dependenciesViolations_texts [.key (.text "dependencies")]
    normal.key
  change [] ++ (Schema.nonEmptyTextViolations [.key (.text "name")] (.text m.name) ++
    (Schema.nonEmptyTextViolations [.key (.text "version")] (.text m.version.text) ++
      (Schema.authorsViolations [.key (.text "authors")] (.list (m.authors.map .text)) ++
        ([] ++ (Schema.dependenciesViolations [.key (.text "dependencies")]
          (.object (m.dependencies.map fun (name, range) => (name, .text range.text))) ++ []))))) = _
  rw [name, version, authors, dependencies]
  rfl

/-- What the document of a manifest says. -/
def said (m : Manifest) : ManifestDocument :=
  ⟨m.name, m.version.text, m.authors, m.description,
    m.dependencies.map fun (name, range) => (name, range.text)⟩

theorem read?_toDocument (m : Manifest) : Schema.read? m.toDocument = some m.said := by
  have authors : (m.authors.map Value.text).mapM Schema.textOf? = some m.authors := by
    rw [List.mapM_map]
    exact (List.mapM_pure (f := id)).trans (congrArg some (List.map_id m.authors))
  have dependencies : Schema.dependenciesOf? (.object (m.dependencies.map fun (name, range) =>
      (name, .text range.text))) = some m.said.dependencies := by
    rw [Schema.dependenciesOf?, List.mapM_map]
    exact List.mapM_pure
  change ((m.authors.map Value.text).mapM Schema.textOf? >>= fun authors =>
    Schema.dependenciesOf? (.object (m.dependencies.map fun (name, range) =>
      (name, .text range.text))) >>= fun dependencies =>
        some (⟨m.name, m.version.text, authors, m.description, dependencies⟩ :
          ManifestDocument)) = _
  rw [authors, dependencies]
  rfl

theorem outcome_toDocument (normal : m.Normal options) :
    outcome fits options m.toDocument = .ok m := by
  refine outcome_eq_ok_iff.mpr ⟨m.said, violations_toDocument normal, read?_toDocument m,
    ⟨rfl, ⟨normal.version, rfl⟩, rfl, rfl, ?_⟩, normal.name, normal.authors, normal.author,
    normal.key⟩
  rw [said, List.forall₂_map_left_iff, List.forall₂_same]
  exact fun dependency member => ⟨rfl, normal.range dependency member⟩

/-- The entries of a document for its dependencies. -/
def declared : Value → List (Value × Value)
  | .object entries =>
    match Value.entry? "dependencies" entries with
    | some (.object dependencies) => dependencies
    | _ => []
  | _ => []

theorem entries_of_dependenciesOf? {entries : List (Value × Value)}
    {dependencies : List (Value × String)}
    (form : Schema.dependenciesOf? (.object entries) = some dependencies) :
    entries = dependencies.map fun own => (own.1, .text own.2) := by
  rw [Schema.dependenciesOf?] at form
  induction entries generalizing dependencies with
  | nil =>
      cases form
      rfl
  | cons entry rest ih =>
      rw [List.mapM_cons] at form
      simp only [Option.bind_eq_bind, Option.bind_eq_some_iff, Option.map_eq_some_iff,
        Option.pure_def, Option.some.injEq] at form
      obtain ⟨_, ⟨text, isText, rfl⟩, others, tail, rfl⟩ := form
      obtain ⟨key, value⟩ := entry
      cases value <;> cases isText
      rw [List.map_cons, ← ih tail]

theorem declared_of_read? {document : Value} {read : ManifestDocument}
    (form : Schema.read? document = some read) :
    declared document = read.dependencies.map fun own => (own.1, .text own.2) := by
  unfold Schema.read? at form
  split at form
  next entries =>
    simp only [Option.bind_eq_bind, Option.bind_eq_some_iff, Option.pure_def] at form
    obtain ⟨_, -, name, -, _, -, version, -, _, -, authors, -, _, -, description, -, form⟩ := form
    rw [declared]
    split at form
    next value entry =>
      obtain ⟨dependencies, found, whole⟩ := Option.bind_eq_some_iff.mp form
      obtain rfl := Option.some.inj whole
      rw [entry]
      cases value with
      | object own => exact entries_of_dependenciesOf? found
      | _ => cases found
    next entry =>
      cases form
      rw [entry]
      rfl
  · cases form

/-- A manifest that was read, in whatever form, is written as a document from which it is
read again, and the ranges that it then has include what the ranges of the first document
include. -/
theorem read_again (options : ParseOptions) (document : Value) (m : Manifest)
    (read : (Noting.collect (ofDocument options document)).1 = .ok m) :
    ∃ reloaded, (Noting.collect (ofDocument options m.toDocument)).1 = .ok reloaded ∧
      reloaded = m ∧ reloaded.toDocument = m.toDocument ∧
        List.Forall₂
          (fun entry dependency => entry.1 = dependency.1 ∧
            ∃ text own, entry.2 = .text text ∧ Range.parse options text = .ok own ∧
              ∀ v, dependency.2.includes v = own.includes v)
          (declared document) reloaded.dependencies := by
  rw [(comesTo_ofDocument options document).collect] at read
  have again : outcome Schema.everyFits options m.toDocument = .ok m :=
    outcome_toDocument (normal_of_outcome read)
  refine ⟨m, by rw [(comesTo_ofDocument options m.toDocument).collect, again], rfl, rfl, ?_⟩
  obtain ⟨found, -, form, common, -⟩ := outcome_eq_ok_iff.mp read
  rw [declared_of_read? form, List.forall₂_map_left_iff]
  apply common.dependencies.imp
  rintro own dependency ⟨name, parsed⟩
  exact ⟨name, own.2, dependency.2, rfl, parsed, fun _ => rfl⟩

/-- A version with a build, and ranges that are not in their canonical form. -/
theorem read_again_of_shorthands :
    ∃ m reloaded, (Noting.collect (ofDocument {} (.object
        [(.text "name", .text "core"), (.text "version", .text "1.0.0-rc+7"),
          (.text "authors", .list [.text "us"]), (.text "description", .text ""),
          (.text "dependencies", .object
            [(.text "log", .text "~1.2,<2||<2"), (.text "net", .text "1||*")])]))).1 = .ok m ∧
      (Noting.collect (ofDocument {} m.toDocument)).1 = .ok reloaded ∧ reloaded = m ∧
        m.version.build = ["7"] ∧ m.dependencies.map (fun d => d.2.text) =
          [">=1.2.0 <1.3.0 <2.0.0 || <2.0.0", "*"] := by
  have read : (Noting.collect (ofDocument {} (.object
        [(.text "name", .text "core"), (.text "version", .text "1.0.0-rc+7"),
          (.text "authors", .list [.text "us"]), (.text "description", .text ""),
          (.text "dependencies", .object
            [(.text "log", .text "~1.2,<2||<2"), (.text "net", .text "1||*")])]))).1 =
      .ok ⟨"core", ⟨1, 0, 0, [.word "rc"], ["7"]⟩, ["us"], "",
        [(.text "log", ⟨[[.exact .greaterEqual (.release 1 2 0) {},
            .exact .less (.release 1 3 0) {}, .exact .less (.release 2 0 0) {}],
          [.exact .less (.release 2 0 0) {}]]⟩),
        (.text "net", ⟨[[.any {}]]⟩)]⟩ := by
    rfl
  obtain ⟨reloaded, again, same, -⟩ := read_again {} _ _ read
  exact ⟨_, reloaded, read, again, same, rfl, rfl⟩

end Manifest

end VersionRange
