import VersionRange.Manifest.Reader
import VersionRange.Proofs.Manifest.Unordered
import VersionRange.Proofs.Manifest.Validation
import VersionRange.Proofs.Version.Grammar
import VersionRange.Proofs.Yaml.Keys

/-!
# How loading a manifest can end

Loading gives a manifest or a fault of manifests, but for what goes wrong where no such fault
is made of it: names that no file has, bytes that are no UTF-8, values that their reader gives
up on, violations that cannot be sorted or told, numbers that are too long in the version or in
a range, ranges of separators, and names of dependencies that count as nothing.  This holds
whatever reads YAML, as long as the keys that it gives are no collections, and however little
of what is nested fits on the stack.
-/

namespace VersionRange

open Fallible

/-- A fault that is none of manifests. -/
def Fault.IsForeign (fault : Fault) : Prop :=
  ∀ cause, fault ≠ .manifest cause

/-- The outcome is a fault that is none of manifests. -/
def EndsForeign {α : Type} (outcome : Except Fault α) : Prop :=
  ∃ fault, outcome = .error fault ∧ fault.IsForeign

theorem not_endsForeign_ok {α : Type} (a : α) : ¬EndsForeign (.ok a : Except Fault α) := by
  rintro ⟨fault, ⟨⟩, -⟩

theorem not_endsForeign_manifest {α : Type} (cause : ManifestFault) :
    ¬EndsForeign (.error (.manifest cause) : Except Fault α) := by
  rintro ⟨_, ⟨⟩, foreign⟩
  exact foreign cause rfl

theorem endsForeign_numeral {α : Type} (cause : NumeralFault) :
    EndsForeign (.error (.numeral cause) : Except Fault α) :=
  ⟨_, rfl, fun _ => by simp⟩

theorem endsForeign_bind_iff {α β : Type} {first : Except Fault α} {next : α → Except Fault β} :
    EndsForeign (first >>= next) ↔
      EndsForeign first ∨ ∃ a, first = .ok a ∧ EndsForeign (next a) := by
  cases first <;> simp [EndsForeign]

/-- A traversal ends with a foreign fault when the first step that fails does. -/
theorem endsForeign_mapM_iff {α β : Type} {step : α → Except Fault β} {items : List α} :
    EndsForeign (items.mapM step) ↔
      Preceded (fun item => EndsForeign (step item)) (fun item => ∃ result, step item = .ok result)
        items := by
  induction items with
  | nil => simpa using not_endsForeign_ok []
  | cons item rest ih =>
      rw [List.mapM_cons, endsForeign_bind_iff, preceded_cons, ← ih]
      simp only [endsForeign_bind_iff, pure_eq_ok, not_endsForeign_ok, and_false, exists_false,
        or_false, exists_and_right]

namespace Schema

variable {fits : Value → Bool} {document : Value}

/-- Checking a document against the schema ends with a foreign fault when its violations cannot
be sorted or told. -/
theorem endsForeign_validate_iff (keyed : document.Keyed) :
    EndsForeign (validateWithin fits document) ↔
      Unordered document ∨ (∃ v, Violated document v ∧ ¬Tellable fits v.problem.value) ∨
        ∃ v key, Violated document v ∧ .key key ∈ v.path ∧ key.isWritable = false := by
  by_cases none : violations document = []
  · obtain ⟨said, accepted⟩ := exists_validate_iff.mpr (violations_eq_nil_iff.mp none)
    have nothing (v : Violation) : ¬Violated document v := by
      rw [← mem_violations_iff, none]
      exact List.not_mem_nil
    rw [accepted]
    refine iff_of_false (not_endsForeign_ok said) ?_
    rintro (unordered | ⟨v, violated, -⟩ | ⟨v, -, violated, -⟩)
    · obtain ⟨v, -, -, -, violated, -⟩ := unordered_iff.mp unordered
      exact nothing v violated
    · exact nothing v violated
    · exact nothing v violated
  · rw [validate_of_violations none, endsForeign_bind_iff]
    have told : (∃ told, sortedWithin fits (violations document) = .ok told) ↔ _ :=
      exists_sorted_iff keyed
    cases inOrder : sortedWithin fits (violations document) with
    | ok told' =>
        obtain ⟨ordered, values, keys⟩ := told.mp ⟨told', inOrder⟩
        refine iff_of_false ?_ ?_
        · rintro (foreign | ⟨_, ⟨⟩, foreign⟩)
          · exact not_endsForeign_ok told' foreign
          · exact not_endsForeign_manifest _ foreign
        · rintro (unordered | ⟨v, violated, untold⟩ | ⟨v, key, violated, step, long⟩)
          · exact ordered unordered
          · exact untold (values v violated)
          · simp [keys v key violated step] at long
    | error fault =>
        refine iff_of_true (.inl ⟨fault, rfl, ?_⟩) ?_
        · rcases fault_of_sorted inOrder with rfl | rfl | ⟨cause, rfl⟩
          · exact fun _ => by simp
          · exact fun _ => by simp
          · exact fun _ => by simp
        · by_contra wrong
          simp only [not_or, not_exists, not_and, Bool.not_eq_false, not_not] at wrong
          obtain ⟨told', sorted⟩ := told.mpr wrong
          rw [inOrder] at sorted
          cases sorted

/-- What a document that is accepted says does not depend on the stack. -/
theorem validateWithin_eq_ok_iff {said : ManifestDocument} :
    validateWithin fits document = .ok said ↔ validate document = .ok said :=
  Manifest.validate_eq_ok_iff.trans Manifest.validate_eq_ok_iff.symm

end Schema

namespace Manifest

variable {options : ParseOptions}

theorem endsForeign_readVersion_iff {text : String} :
    EndsForeign (readVersion text) ↔ Version.Overlong text.toList := by
  rw [← Version.parseChars_numeral_iff_overlong]
  constructor
  · rintro ⟨_, refused, foreign⟩
    obtain ⟨own, unread, rfl⟩ := mapError_eq_error_iff.mp refused
    rcases Version.fault_of_parseChars unread with ⟨cause, rfl⟩ | ⟨cause, rfl⟩
    · exact absurd rfl (foreign _)
    · exact ⟨cause, unread⟩
  · rintro ⟨cause, unread⟩
    rw [readVersion, Version.parse, unread]
    exact endsForeign_numeral cause

/-- Reading the range of a dependency ends with a foreign fault: numbers that are too long or a
part of separators stand first, or the name cannot be told. -/
def RangeEscapes (options : ParseOptions) (own : Value × String) : Prop :=
  Range.OverlongFirst options own.2 ∨ Range.SeparatorsFirst options own.2 ∨
    (own.1.isWritable = false ∧ ∃ cause, Range.parse options own.2 = .error (.range cause))

theorem endsForeign_readDependency_iff {own : Value × String} :
    EndsForeign (readDependency options own) ↔ RangeEscapes options own := by
  rw [RangeEscapes, ← Range.parse_numeral_iff, ← Range.parse_emptyGroup_iff]
  simp only [EndsForeign, readDependency_eq_error_iff]
  constructor
  · rintro ⟨_, ⟨cause, unread, rfl⟩ | ⟨cause, unread, rfl⟩ | ⟨unread, rfl⟩, foreign⟩
    · refine .inr (.inr ⟨?_, cause, unread⟩)
      cases writable : own.1.isWritable with
      | false => rfl
      | true => exact absurd (by rw [rangeFault, if_pos writable]) (foreign (.badRange own.1 cause))
    · exact .inl ⟨cause, unread⟩
    · exact .inr (.inl unread)
  · rintro (⟨cause, unread⟩ | unread | ⟨long, cause, unread⟩)
    · exact ⟨_, .inr (.inl ⟨cause, unread, rfl⟩), fun _ => by simp⟩
    · exact ⟨_, .inr (.inr ⟨unread, rfl⟩), fun _ => by simp⟩
    · exact ⟨_, .inl ⟨cause, unread, rfl⟩, fun _ => by simp [rangeFault, long]⟩

theorem exists_readDependency_iff {own : Value × String} :
    (∃ dependency, readDependency options own = .ok dependency) ↔
      ∃ range, Range.parse options own.2 = .ok range := by
  simp only [readDependency_eq_ok_iff, Prod.exists]
  exact ⟨fun ⟨_, range, _, read⟩ => ⟨range, read⟩, fun ⟨range, read⟩ => ⟨own.1, range, rfl, read⟩⟩

/-- Reading a document ends with a fault that is none of manifests. -/
inductive Escapes (fits : Value → Bool) (options : ParseOptions) (document : Value) : Prop
  | unordered (unordered : Schema.Unordered document)
  | value {v : Violation} (violated : Schema.Violated document v)
      (untold : ¬Schema.Tellable fits v.problem.value)
  | place {v : Violation} {key : Value} (violated : Schema.Violated document v)
      (step : .key key ∈ v.path) (long : key.isWritable = false)
  | version {said : ManifestDocument} (accepted : Schema.validate document = .ok said)
      (long : Version.Overlong said.version.toList)
  | range {said : ManifestDocument} {version : Version}
      (accepted : Schema.validate document = .ok said)
      (isVersion : Version.parse said.version = .ok version)
      (first : Preceded (RangeEscapes options)
        (fun own => ∃ range, Range.parse options own.2 = .ok range) said.dependencies)
  | name {said : ManifestDocument} {version : Version}
      (accepted : Schema.validate document = .ok said)
      (isVersion : Version.parse said.version = .ok version)
      (ranges : ∀ own ∈ said.dependencies, ∃ range, Range.parse options own.2 = .ok range)
      (falsy : ∃ own ∈ said.dependencies, own.1.isTruthy = false)

theorem readVersion_eq_ok_iff_parse {text : String} {version : Version} :
    readVersion text = .ok version ↔ Version.parse text = .ok version :=
  mapError_eq_ok_iff

theorem endsForeign_ofParts_iff {document : Value} {said : ManifestDocument} {version : Version}
    {dependencies : List (Value × Range)} (accepted : Schema.validate document = .ok said)
    (each : said.dependencies.mapM (readDependency options) = .ok dependencies) :
    EndsForeign (ofParts said.name version said.authors said.description dependencies) ↔
      ∃ own ∈ said.dependencies, own.1.isTruthy = false := by
  obtain ⟨name, authors, author, -⟩ := Schema.said_of_validate accepted
  simp only [EndsForeign, ofParts_eq_error_iff name authors author]
  have atKeys {α : Type} (list : List (Value × α)) :
      (∃ entry ∈ list, entry.1.isTruthy = false) ↔
        ∃ key ∈ list.map Prod.fst, key.isTruthy = false := by
    simp only [List.mem_map, exists_exists_and_eq_and]
  rw [atKeys said.dependencies, ← keys_of_mapM each, ← atKeys dependencies]
  constructor
  · rintro ⟨_, ⟨found, -⟩, -⟩
    exact found
  · exact fun found => ⟨_, ⟨found, rfl⟩, fun _ => by simp⟩

theorem endsForeign_outcome_iff {fits : Value → Bool} {document : Value}
    (keyed : document.Keyed) :
    EndsForeign (outcome fits options document) ↔ Escapes fits options document := by
  simp only [outcome, endsForeign_bind_iff, Schema.endsForeign_validate_iff keyed,
    Schema.validateWithin_eq_ok_iff, endsForeign_readVersion_iff, readVersion_eq_ok_iff_parse,
    endsForeign_mapM_iff, endsForeign_readDependency_iff, exists_readDependency_iff]
  constructor
  · rintro ((unordered | ⟨v, violated, untold⟩ | ⟨v, key, violated, step, long⟩) |
      ⟨said, accepted, long | ⟨version, isVersion, first | ⟨dependencies, each, parts⟩⟩⟩)
    · exact .unordered unordered
    · exact .value violated untold
    · exact .place violated step long
    · exact .version accepted long
    · exact .range accepted isVersion first
    · refine .name accepted isVersion (fun own member => ?_)
        ((endsForeign_ofParts_iff accepted each).mp parts)
      exact exists_readDependency_iff.mp (mapM_succeeds_iff.mp ⟨dependencies, each⟩ own member)
  · rintro (unordered | ⟨violated, untold⟩ | ⟨violated, step, long⟩ | ⟨accepted, long⟩ |
      ⟨accepted, isVersion, first⟩ | ⟨accepted, isVersion, ranges, falsy⟩)
    · exact .inl (.inl unordered)
    · exact .inl (.inr (.inl ⟨_, violated, untold⟩))
    · exact .inl (.inr (.inr ⟨_, _, violated, step, long⟩))
    · exact .inr ⟨_, accepted, .inl long⟩
    · exact .inr ⟨_, accepted, .inr ⟨_, isVersion, .inl first⟩⟩
    · obtain ⟨dependencies, each⟩ := mapM_succeeds_iff.mpr fun own member =>
        exists_readDependency_iff.mpr (ranges own member)
      exact .inr ⟨_, accepted, .inr ⟨_, isVersion, .inr
        ⟨dependencies, each, (endsForeign_ofParts_iff accepted each).mpr falsy⟩⟩⟩

end Manifest

/-- No unit that names cannot have and no NUL keeps a path from being looked up. -/
def Files.CanBeNamed (files : Files) (path : Path) : Prop :=
  files.unnameable? path = none ∧ '\x00' ∉ path.text.toList

namespace Manifest

variable {readers : Readers} {options : ParseOptions} {files : Files} {path : Path}

/-- The document in a file cannot be had, and that is not a fault of manifests. -/
inductive FileEscapes (readers : Readers) (files : Files) (path : Path) : Prop
  | unnamed (unnamed : ¬files.CanBeNamed path)
  | bytes {bytes : List UInt8} {fault : Utf8Fault} (named : files.CanBeNamed path)
      (holds : files.read path = .ok bytes) (noText : decodeUtf8 bytes = .error fault)
  | json {bytes : List UInt8} {chars : List Char} {fault : Fault} (named : files.CanBeNamed path)
      (holds : files.read path = .ok bytes) (isText : contentChars bytes = .ok chars)
      (isJson : isYaml path = false)
      (stops : Json.readCharsWithin readers.nesting chars = .error fault)
      (long : (∃ cause, fault = .numeral cause) ∨ ∃ container, fault = .nesting container)
  | yaml {bytes : List UInt8} {chars : List Char} {fault : Fault} (named : files.CanBeNamed path)
      (holds : files.read path = .ok bytes) (isText : contentChars bytes = .ok chars)
      (isYaml : isYaml path = true) (stops : readers.yaml chars = .error (.badValue fault))
      (foreign : fault.IsForeign)

/-- Reading JSON fails at an offset, on a number that is too long or on values that are nested
too deeply. -/
theorem fault_of_readChars {limit : Nat} {chars : List Char} {fault : Fault}
    (stops : Json.readCharsWithin limit chars = .error fault) :
    (∃ cause, fault = .json cause) ∨ (∃ cause, fault = .numeral cause) ∨
      ∃ container, fault = .nesting container := by
  unfold Json.readCharsWithin at stops
  extract_lets atOffset at stops
  split at stops
  · cases stops
    exact .inl ⟨_, rfl⟩
  · split at stops
    · cases stops
      exact .inl ⟨_, rfl⟩
    next cause _ =>
      cases stops
      exact .inr (.inl ⟨cause, rfl⟩)
    next container _ =>
      cases stops
      exact .inr (.inr ⟨container, rfl⟩)
    · extract_lets behind at stops
      split at stops
      · cases stops
      · cases stops
        exact .inl ⟨_, rfl⟩

/-- The values that are read of YAML have keys that are no collections. -/
def Readers.Keyed (readers : Readers) : Prop :=
  ∀ chars document, readers.yaml chars = .ok document → document.Keyed

theorem keyed_readers : Readers.Keyed {} :=
  fun _ _ read => Yaml.keyed_of_readChars read

theorem keyed_of_documentOf (keyed : readers.Keyed) {chars : List Char} {document : Value}
    (read : documentOf readers path chars = .ok document) : document.Keyed := by
  unfold documentOf at read
  split at read
  · exact keyed chars document (mapError_eq_ok_iff.mp read)
  · exact (Json.isJson_of_readChars (mapError_eq_ok_iff.mp read)).keyed

theorem endsForeign_documentOf_iff {chars : List Char} :
    EndsForeign (documentOf readers path chars) ↔
      (isYaml path = true ∧ ∃ fault, readers.yaml chars = .error (.badValue fault) ∧
          fault.IsForeign) ∨
        (isYaml path = false ∧ ∃ fault, Json.readCharsWithin readers.nesting chars = .error fault ∧
          ((∃ cause, fault = .numeral cause) ∨ ∃ container, fault = .nesting container)) := by
  unfold documentOf
  split
  next yaml =>
    simp only [yaml, true_and, Bool.true_eq_false, false_and, or_false]
    cases read : readers.yaml chars with
    | ok document => exact iff_of_false (not_endsForeign_ok document) (by simp)
    | error stop =>
        cases stop with
        | malformed => exact iff_of_false (not_endsForeign_manifest _) (by simp)
        | badValue fault => simp [EndsForeign, Except.mapError]
  next json =>
    rw [Bool.not_eq_true] at json
    simp only [json, Bool.false_eq_true, false_and, true_and, false_or]
    cases read : Json.readCharsWithin readers.nesting chars with
    | ok document => exact iff_of_false (not_endsForeign_ok document) (by simp)
    | error fault =>
        rcases fault_of_readChars read with ⟨cause, rfl⟩ | long
        · exact iff_of_false (not_endsForeign_manifest _) (by simp)
        · refine iff_of_true ?_ ⟨fault, rfl, long⟩
          rcases long with ⟨cause, rfl⟩ | ⟨container, rfl⟩
          · exact ⟨_, rfl, fun _ => by simp⟩
          · exact ⟨_, rfl, fun _ => by simp⟩

theorem readDocument_of_named (named : files.CanBeNamed path) :
    readDocument readers files path =
      ((files.read path).mapError fun fault => .manifest (.unreadable path.text fault)) >>=
        fun bytes => contentChars bytes >>= documentOf readers path := by
  obtain ⟨nameable, noNul⟩ := named
  have nul : path.text.toList.contains '\x00' = false := by simpa using noNul
  simp only [readDocument, nameable, nul]
  rfl

theorem endsForeign_of_unnamed (unnamed : ¬files.CanBeNamed path) :
    EndsForeign (readDocument readers files path) := by
  cases halves : files.unnameable? path with
  | some found =>
      obtain ⟨place, half⟩ := found
      refine ⟨.unnameable place half, ?_, fun _ => by simp⟩
      simp only [readDocument, halves]
      rfl
  | none =>
      have contains : path.text.toList.contains '\x00' = true := by
        simpa [Files.CanBeNamed, halves] using unnamed
      refine ⟨.nulInPath, ?_, fun _ => by simp⟩
      simp only [readDocument, halves, contains]
      rfl

theorem endsForeign_contentChars_iff {bytes : List UInt8} :
    EndsForeign (contentChars bytes) ↔ ∃ fault, decodeUtf8 bytes = .error fault := by
  unfold contentChars
  cases decodeUtf8 bytes with
  | ok chars => simpa using not_endsForeign_ok _
  | error fault => exact iff_of_true ⟨_, rfl, fun _ => by simp⟩ ⟨fault, rfl⟩

theorem endsForeign_readDocument_iff :
    EndsForeign (readDocument readers files path) ↔ FileEscapes readers files path := by
  by_cases named : files.CanBeNamed path
  · rw [readDocument_of_named named, endsForeign_bind_iff]
    simp only [endsForeign_bind_iff, endsForeign_contentChars_iff, endsForeign_documentOf_iff,
      mapError_eq_ok_iff]
    constructor
    · rintro (⟨_, unread, foreign⟩ | ⟨bytes, holds, ⟨fault, noText⟩ | ⟨chars, isText,
        ⟨yaml, fault, stops, foreign⟩ | ⟨json, fault, stops, long⟩⟩⟩)
      · obtain ⟨cause, -, rfl⟩ := mapError_eq_error_iff.mp unread
        exact absurd rfl (foreign _)
      · exact .bytes named holds noText
      · exact .yaml named holds isText yaml stops foreign
      · exact .json named holds isText json stops long
    · rintro (unnamed | ⟨-, holds, noText⟩ | ⟨-, holds, isText, json, stops, long⟩ |
        ⟨-, holds, isText, yaml, stops, foreign⟩)
      · exact absurd named unnamed
      · exact .inr ⟨_, holds, .inl ⟨_, noText⟩⟩
      · exact .inr ⟨_, holds, .inr ⟨_, isText, .inr ⟨json, _, stops, long⟩⟩⟩
      · exact .inr ⟨_, holds, .inr ⟨_, isText, .inl ⟨yaml, _, stops, foreign⟩⟩⟩
  · exact iff_of_true (endsForeign_of_unnamed named) (.unnamed named)

/-- A document that is read from a file has keys that are no collections. -/
theorem keyed_of_readDocument (keyed : readers.Keyed) {document : Value}
    (read : readDocument readers files path = .ok document) : document.Keyed := by
  by_cases named : files.CanBeNamed path
  · rw [readDocument_of_named named] at read
    obtain ⟨bytes, -, rest⟩ := bind_eq_ok_iff.mp read
    obtain ⟨chars, -, isDocument⟩ := bind_eq_ok_iff.mp rest
    exact keyed_of_documentOf keyed isDocument
  · have foreign : EndsForeign (readDocument readers files path) := endsForeign_of_unnamed named
    obtain ⟨fault, refused, -⟩ := foreign
    cases refused.symm.trans read

/-- Loading gives a manifest or a fault of manifests. -/
def EndsAsDocumented (readers : Readers) (options : ParseOptions) (files : Files)
    (path : Path) : Prop :=
  (∃ m, (Noting.collect (loadWith readers options files path)).1 = .ok m) ∨
    ∃ cause, (Noting.collect (loadWith readers options files path)).1 = .error (.manifest cause)

theorem comesTo_loadWith (readers : Readers) (options : ParseOptions) (files : Files)
    (path : Path) :
    (loadWith readers options files path).ComesTo
      (readDocument readers files path >>= outcome readers.fits options) :=
  (Noting.comesTo_lift _).bind fun document => comesTo_ofDocumentWithin _ options document

theorem comesTo_load (options : ParseOptions) (files : Files) (path : Path) :
    (load options files path).ComesTo
      (readDocument {} files path >>= outcome Schema.everyFits options) :=
  comesTo_loadWith {} options files path

theorem not_endsForeign_iff {α : Type} {result : Except Fault α} :
    ¬EndsForeign result ↔
      (∃ a, result = .ok a) ∨ ∃ cause, result = .error (.manifest cause) := by
  cases result with
  | ok a => simpa using not_endsForeign_ok a
  | error fault => simp [EndsForeign, Fault.IsForeign]

/-- Loading ends as documented unless the document of the file cannot be had or reading it ends
with a fault that is none of manifests. -/
theorem endsAsDocumented_unless_escapes (readers : Readers) (keyed : readers.Keyed)
    (options : ParseOptions) (files : Files) (path : Path) :
    EndsAsDocumented readers options files path ↔
      ¬(FileEscapes readers files path ∨
        ∃ document, readDocument readers files path = .ok document ∧
          Escapes readers.fits options document) := by
  rw [EndsAsDocumented, (comesTo_loadWith readers options files path).collect,
    ← not_endsForeign_iff, endsForeign_bind_iff, endsForeign_readDocument_iff]
  refine not_congr (or_congr_right (exists_congr fun document => and_congr_right fun read => ?_))
  exact endsForeign_outcome_iff (keyed_of_readDocument keyed read)

/-- A file of YAML that holds nothing. -/
def emptyFile : Files :=
  { entries := [(["m.yaml"], .file [])] }

/-- Nothing is no manifest, which is found without an escape. -/
theorem endsAsDocumented_unless_escapes_of_empty :
    Readers.Keyed {} ∧ EndsAsDocumented {} {} emptyFile (Path.ofText "m.yaml") ∧
      ¬FileEscapes {} emptyFile (Path.ofText "m.yaml") := by
  have documented : EndsAsDocumented {} {} emptyFile (Path.ofText "m.yaml") :=
    .inr ⟨_, rfl⟩
  refine ⟨keyed_readers, documented, fun escapes => ?_⟩
  exact (endsAsDocumented_unless_escapes {} keyed_readers {} emptyFile _).mp documented
    (.inl escapes)

/-- A file of a single byte that no text begins with. -/
theorem not_endsAsDocumented_of_byte :
    ¬EndsAsDocumented {} {} { entries := [(["m.json"], .file [0xff])] } (Path.ofText "m.json") := by
  have loaded : ∃ fault, (Noting.collect
      (loadWith {} {} { entries := [(["m.json"], .file [0xff])] } (Path.ofText "m.json"))).1 =
        .error (.encoding fault) :=
    ⟨_, rfl⟩
  obtain ⟨fault, refused⟩ := loaded
  rintro (⟨m, read⟩ | ⟨cause, documented⟩)
  · rw [refused] at read
    cases read
  · rw [refused] at documented
    cases documented

end Manifest

end VersionRange
