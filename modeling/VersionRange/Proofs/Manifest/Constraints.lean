import Mathlib.Data.Set.List
import Mathlib.Tactic.ByContra
import VersionRange.Manifest.Schema

/-!
# What the manifest schema asks

A document follows the schema or violates some of its constraints.  Both are said here about
the document alone, and the list of violations that the check makes is compared to it: it has
an entry for each constraint that is violated and no other, and it is empty for the documents
that follow the schema.  Constraints are violated at the root, at a property of the manifest, at
an author or at a dependency.
-/

namespace VersionRange

namespace Schema

/-- The entries of a document that follows the schema. -/
structure Follows (entries : List (Value × Value)) : Prop where
  name : ∃ s, Value.entry? "name" entries = some (.text s) ∧ s ≠ ""
  version : ∃ s, Value.entry? "version" entries = some (.text s) ∧ s ≠ ""
  authors : ∃ authors : List String,
    Value.entry? "authors" entries = some (.list (authors.map .text)) ∧ authors ≠ [] ∧
      "" ∉ authors
  description : ∃ s, Value.entry? "description" entries = some (.text s)
  dependencies : ∀ value, Value.entry? "dependencies" entries = some value →
    ∃ own : List (Value × String), value = .object (own.map fun d => (d.1, .text d.2)) ∧
      Value.text "" ∉ own.map Prod.fst

/-- A constraint of the schema that a document violates, with the place and the problem. -/
inductive Violated : Value → Violation → Prop
  | notObject {document : Value} (wrong : ∀ entries, document ≠ .object entries) :
      Violated document ⟨[], .wrongSort document .object⟩
  | missing {entries : List (Value × Value)} {name : String} (required : name ∈ requiredKeys)
      (absent : Value.entry? name entries = none) :
      Violated (.object entries) ⟨[], .missing name⟩
  | notText {entries : List (Value × Value)} {name : String} {value : Value}
      (asked : name ∈ ["name", "version", "description"])
      (entry : Value.entry? name entries = some value) (wrong : ∀ s, value ≠ .text s) :
      Violated (.object entries) ⟨[.key (.text name)], .wrongSort value .text⟩
  | emptyText {entries : List (Value × Value)} {name : String}
      (asked : name ∈ ["name", "version"])
      (entry : Value.entry? name entries = some (.text "")) :
      Violated (.object entries) ⟨[.key (.text name)], .empty (.text "")⟩
  | authorsNotList {entries : List (Value × Value)} {value : Value}
      (entry : Value.entry? "authors" entries = some value)
      (wrong : ∀ items, value ≠ .list items) :
      Violated (.object entries) ⟨[.key (.text "authors")], .wrongSort value .list⟩
  | noAuthors {entries : List (Value × Value)}
      (entry : Value.entry? "authors" entries = some (.list [])) :
      Violated (.object entries) ⟨[.key (.text "authors")], .empty (.list [])⟩
  | authorNotText {entries : List (Value × Value)} {items : List Value} {position : Nat}
      {value : Value} (entry : Value.entry? "authors" entries = some (.list items))
      (author : items[position]? = some value) (wrong : ∀ s, value ≠ .text s) :
      Violated (.object entries)
        ⟨[.key (.text "authors"), .index position], .wrongSort value .text⟩
  | emptyAuthor {entries : List (Value × Value)} {items : List Value} {position : Nat}
      (entry : Value.entry? "authors" entries = some (.list items))
      (author : items[position]? = some (.text "")) :
      Violated (.object entries) ⟨[.key (.text "authors"), .index position], .empty (.text "")⟩
  | dependenciesNotObject {entries : List (Value × Value)} {value : Value}
      (entry : Value.entry? "dependencies" entries = some value)
      (wrong : ∀ own, value ≠ .object own) :
      Violated (.object entries) ⟨[.key (.text "dependencies")], .wrongSort value .object⟩
  | emptyKey {entries own : List (Value × Value)}
      (entry : Value.entry? "dependencies" entries = some (.object own))
      (key : Value.text "" ∈ own.map Prod.fst) :
      Violated (.object entries) ⟨[.key (.text "dependencies")], .empty (.text "")⟩
  | rangeNotText {entries own : List (Value × Value)} {key value : Value}
      (entry : Value.entry? "dependencies" entries = some (.object own))
      (dependency : (key, value) ∈ own) (wrong : ∀ s, value ≠ .text s) :
      Violated (.object entries)
        ⟨.key (.text "dependencies") :: keySteps key, .wrongSort value .text⟩

variable {path : List PathStep} {value : Value} {v : Violation}

theorem mem_textViolations_iff :
    v ∈ textViolations path value ↔
      (∀ s, value ≠ .text s) ∧ v = ⟨path, .wrongSort value .text⟩ := by
  cases value <;> simp [textViolations, isText]

theorem nonEmptyTextViolations_empty :
    nonEmptyTextViolations path (.text "") = [⟨path, .empty (.text "")⟩] :=
  rfl

theorem nonEmptyTextViolations_eq (some : value ≠ .text "") :
    nonEmptyTextViolations path value = textViolations path value := by
  unfold nonEmptyTextViolations
  split
  · exact absurd rfl some
  · rfl

theorem mem_nonEmptyTextViolations_iff :
    v ∈ nonEmptyTextViolations path value ↔
      ((∀ s, value ≠ .text s) ∧ v = ⟨path, .wrongSort value .text⟩) ∨
        (value = .text "" ∧ v = ⟨path, .empty (.text "")⟩) := by
  by_cases empty : value = .text ""
  · subst empty
    simp [nonEmptyTextViolations_empty]
  · simp [nonEmptyTextViolations_eq empty, mem_textViolations_iff, empty]

/-- The violations of the items of a list of authors. -/
theorem authorsViolations_list {items : List Value} (some : items ≠ []) :
    authorsViolations path (.list items) =
      (items.zipIdx.map fun entry =>
        nonEmptyTextViolations (path ++ [.index entry.2]) entry.1).flatten := by
  cases items with
  | nil => exact absurd rfl some
  | cons item rest => rfl

theorem authorsViolations_of_not_list (wrong : ∀ items, value ≠ .list items) :
    authorsViolations path value = [⟨path, .wrongSort value .list⟩] := by
  unfold authorsViolations
  split
  · exact absurd rfl (wrong [])
  · exact absurd rfl (wrong _)
  · rfl

theorem mem_authorsViolations_iff :
    v ∈ authorsViolations path value ↔
      ((∀ items, value ≠ .list items) ∧ v = ⟨path, .wrongSort value .list⟩) ∨
        (value = .list [] ∧ v = ⟨path, .empty (.list [])⟩) ∨
          ∃ items position author, value = .list items ∧ items[position]? = some author ∧
            v ∈ nonEmptyTextViolations (path ++ [.index position]) author := by
  by_cases isList : ∃ items, value = .list items
  · obtain ⟨items, rfl⟩ := isList
    cases items with
    | nil => simp [authorsViolations]
    | cons item rest =>
        rw [authorsViolations_list (by simp)]
        simp only [List.mem_flatten, List.mem_map, Prod.exists, List.mem_zipIdx_iff_getElem?]
        constructor
        · rintro ⟨_, ⟨author, position, isAuthor, rfl⟩, member⟩
          exact .inr (.inr ⟨_, position, author, rfl, isAuthor, member⟩)
        · rintro (⟨wrong, -⟩ | ⟨empty, -⟩ | ⟨_, position, author, isList, isAuthor, member⟩)
          · exact absurd rfl (wrong _)
          · cases empty
          · cases isList
            exact ⟨_, ⟨author, position, isAuthor, rfl⟩, member⟩
  · have wrong := not_exists.mp isList
    rw [authorsViolations_of_not_list wrong]
    simp [wrong]

/-- The violation of a key of the dependencies. -/
def keyViolations (path : List PathStep) (key : Value) : List Violation :=
  match key with
  | .text "" => [⟨path, .empty key⟩]
  | _ => []

theorem mem_keyViolations_iff {key : Value} :
    v ∈ keyViolations path key ↔ key = .text "" ∧ v = ⟨path, .empty (.text "")⟩ := by
  unfold keyViolations
  split
  · simp
  next some => exact iff_of_false List.not_mem_nil fun ⟨empty, _⟩ => some empty

theorem dependenciesViolations_object {own : List (Value × Value)} :
    dependenciesViolations path (.object own) =
      (own.map fun entry => keyViolations path entry.1).flatten ++
        (own.map fun entry => textViolations (path ++ keySteps entry.1) entry.2).flatten :=
  rfl

theorem dependenciesViolations_of_not_object (wrong : ∀ own, value ≠ .object own) :
    dependenciesViolations path value = [⟨path, .wrongSort value .object⟩] := by
  unfold dependenciesViolations
  split
  · exact absurd rfl (wrong _)
  · rfl

theorem mem_dependenciesViolations_iff :
    v ∈ dependenciesViolations path value ↔
      ((∀ own, value ≠ .object own) ∧ v = ⟨path, .wrongSort value .object⟩) ∨
        ∃ own, value = .object own ∧
          ((Value.text "" ∈ own.map Prod.fst ∧ v = ⟨path, .empty (.text "")⟩) ∨
            ∃ entry ∈ own, v ∈ textViolations (path ++ keySteps entry.1) entry.2) := by
  by_cases isObject : ∃ own, value = .object own
  · obtain ⟨own, rfl⟩ := isObject
    rw [dependenciesViolations_object, List.mem_append, List.mem_flatten, List.mem_flatten]
    have keys : (∃ found, found ∈ (own.map fun entry => keyViolations path entry.1) ∧
        v ∈ found) ↔ Value.text "" ∈ own.map Prod.fst ∧ v = ⟨path, .empty (.text "")⟩ := by
      simp only [List.mem_map, exists_exists_and_eq_and, mem_keyViolations_iff]
      constructor
      · rintro ⟨entry, member, empty, rfl⟩
        exact ⟨⟨entry, member, empty⟩, rfl⟩
      · rintro ⟨⟨entry, member, empty⟩, rfl⟩
        exact ⟨entry, member, empty, rfl⟩
    rw [keys]
    simp only [List.mem_map, exists_exists_and_eq_and]
    constructor
    · exact fun found => .inr ⟨own, rfl, found⟩
    · rintro (⟨wrong, -⟩ | ⟨_, isObject, found⟩)
      · exact absurd rfl (wrong own)
      · cases isObject
        exact found
  · have wrong := not_exists.mp isObject
    rw [dependenciesViolations_of_not_object wrong]
    simp [wrong]

/-- The violations of the value at a key, if it is there. -/
def violationsAt (entries : List (Value × Value))
    (property : String × (List PathStep → Value → List Violation)) : List Violation :=
  match Value.entry? property.1 entries with
  | some value => property.2 [.key (.text property.1)] value
  | none => []

theorem mem_violationsAt_iff {entries : List (Value × Value)}
    {property : String × (List PathStep → Value → List Violation)} :
    v ∈ violationsAt entries property ↔
      ∃ value, Value.entry? property.1 entries = some value ∧
        v ∈ property.2 [.key (.text property.1)] value := by
  unfold violationsAt
  cases Value.entry? property.1 entries <;> simp

theorem violations_object (entries : List (Value × Value)) :
    violations (.object entries) =
      (requiredKeys.filter fun name => (Value.entry? name entries).isNone).map
        (fun name => ⟨[], .missing name⟩) ++ (properties.map (violationsAt entries)).flatten :=
  rfl

theorem mem_violations_object_iff {entries : List (Value × Value)} :
    v ∈ violations (.object entries) ↔
      (∃ name ∈ requiredKeys, Value.entry? name entries = none ∧ v = ⟨[], .missing name⟩) ∨
        ∃ property ∈ properties, v ∈ violationsAt entries property := by
  rw [violations_object, List.mem_append, ← List.flatMap_def, List.mem_flatMap]
  refine or_congr_left ?_
  constructor
  · intro member
    obtain ⟨name, among, rfl⟩ := List.mem_map.mp member
    obtain ⟨required, absent⟩ := List.mem_filter.mp among
    exact ⟨name, required, Option.isNone_iff_eq_none.mp absent, rfl⟩
  · rintro ⟨name, required, absent, rfl⟩
    exact List.mem_map_of_mem
      (List.mem_filter.mpr ⟨required, Option.isNone_iff_eq_none.mpr absent⟩)

theorem violated_of_mem {entries : List (Value × Value)}
    (member : v ∈ violations (.object entries)) : Violated (.object entries) v := by
  rcases mem_violations_object_iff.mp member with ⟨name, required, absent, rfl⟩ |
    ⟨property, known, atKey⟩
  · exact .missing required absent
  · obtain ⟨value, entry, found⟩ := mem_violationsAt_iff.mp atKey
    simp only [properties, List.mem_cons, List.not_mem_nil, or_false] at known
    rcases known with rfl | rfl | rfl | rfl | rfl
    · rcases mem_nonEmptyTextViolations_iff.mp found with ⟨wrong, rfl⟩ | ⟨rfl, rfl⟩
      · exact .notText (by simp) entry wrong
      · exact .emptyText (by simp) entry
    · rcases mem_nonEmptyTextViolations_iff.mp found with ⟨wrong, rfl⟩ | ⟨rfl, rfl⟩
      · exact .notText (by simp) entry wrong
      · exact .emptyText (by simp) entry
    · rcases mem_authorsViolations_iff.mp found with ⟨wrong, rfl⟩ | ⟨rfl, rfl⟩ |
        ⟨items, position, author, rfl, isAuthor, atAuthor⟩
      · exact .authorsNotList entry wrong
      · exact .noAuthors entry
      · rcases mem_nonEmptyTextViolations_iff.mp atAuthor with ⟨wrong, rfl⟩ | ⟨rfl, rfl⟩
        · exact .authorNotText entry isAuthor wrong
        · exact .emptyAuthor entry isAuthor
    · obtain ⟨wrong, rfl⟩ := mem_textViolations_iff.mp found
      exact .notText (by simp) entry wrong
    · rcases mem_dependenciesViolations_iff.mp found with ⟨wrong, rfl⟩ | ⟨own, rfl, ⟨key, rfl⟩ |
        ⟨⟨key, value⟩, dependency, atValue⟩⟩
      · exact .dependenciesNotObject entry wrong
      · exact .emptyKey entry key
      · obtain ⟨wrong, rfl⟩ := mem_textViolations_iff.mp atValue
        exact .rangeNotText entry dependency wrong

theorem mem_of_violated {entries : List (Value × Value)}
    (violated : Violated (.object entries) v) : v ∈ violations (.object entries) := by
  have found {name : String} {check : List PathStep → Value → List Violation} {value : Value}
      (known : (name, check) ∈ properties) (entry : Value.entry? name entries = some value)
      (member : v ∈ check [.key (.text name)] value) : v ∈ violations (.object entries) :=
    mem_violations_object_iff.mpr
      (.inr ⟨_, known, mem_violationsAt_iff.mpr ⟨value, entry, member⟩⟩)
  cases violated with
  | notObject wrong => exact absurd rfl (wrong entries)
  | missing required absent =>
      exact mem_violations_object_iff.mpr (.inl ⟨_, required, absent, rfl⟩)
  | notText asked entry wrong =>
      simp only [List.mem_cons, List.not_mem_nil, or_false] at asked
      rcases asked with rfl | rfl | rfl
      · exact found (by simp [properties]) entry
          (mem_nonEmptyTextViolations_iff.mpr (.inl ⟨wrong, rfl⟩))
      · exact found (by simp [properties]) entry
          (mem_nonEmptyTextViolations_iff.mpr (.inl ⟨wrong, rfl⟩))
      · exact found (by simp [properties]) entry (mem_textViolations_iff.mpr ⟨wrong, rfl⟩)
  | emptyText asked entry =>
      simp only [List.mem_cons, List.not_mem_nil, or_false] at asked
      rcases asked with rfl | rfl
      · exact found (by simp [properties]) entry
          (mem_nonEmptyTextViolations_iff.mpr (.inr ⟨rfl, rfl⟩))
      · exact found (by simp [properties]) entry
          (mem_nonEmptyTextViolations_iff.mpr (.inr ⟨rfl, rfl⟩))
  | authorsNotList entry wrong =>
      exact found (by simp [properties]) entry (mem_authorsViolations_iff.mpr (.inl ⟨wrong, rfl⟩))
  | noAuthors entry =>
      exact found (by simp [properties]) entry
        (mem_authorsViolations_iff.mpr (.inr (.inl ⟨rfl, rfl⟩)))
  | authorNotText entry author wrong =>
      refine found (by simp [properties]) entry
        (mem_authorsViolations_iff.mpr (.inr (.inr ⟨_, _, _, rfl, author, ?_⟩)))
      exact mem_nonEmptyTextViolations_iff.mpr (.inl ⟨wrong, rfl⟩)
  | emptyAuthor entry author =>
      refine found (by simp [properties]) entry
        (mem_authorsViolations_iff.mpr (.inr (.inr ⟨_, _, _, rfl, author, ?_⟩)))
      exact mem_nonEmptyTextViolations_iff.mpr (.inr ⟨rfl, rfl⟩)
  | dependenciesNotObject entry wrong =>
      exact found (by simp [properties]) entry
        (mem_dependenciesViolations_iff.mpr (.inl ⟨wrong, rfl⟩))
  | emptyKey entry key =>
      exact found (by simp [properties]) entry
        (mem_dependenciesViolations_iff.mpr (.inr ⟨_, rfl, .inl ⟨key, rfl⟩⟩))
  | rangeNotText entry dependency wrong =>
      refine found (by simp [properties]) entry
        (mem_dependenciesViolations_iff.mpr (.inr ⟨_, rfl, .inr ⟨_, dependency, ?_⟩⟩))
      exact mem_textViolations_iff.mpr ⟨wrong, rfl⟩

theorem violations_of_not_object {document : Value}
    (wrong : ∀ entries, document ≠ .object entries) :
    violations document = [⟨[], .wrongSort document .object⟩] := by
  unfold violations
  split
  · exact absurd rfl (wrong _)
  · rfl

/-- The check finds the constraints that a document violates. -/
theorem mem_violations_iff {document : Value} :
    v ∈ violations document ↔ Violated document v := by
  by_cases isObject : ∃ entries, document = .object entries
  · obtain ⟨entries, rfl⟩ := isObject
    exact ⟨violated_of_mem, mem_of_violated⟩
  · have wrong := not_exists.mp isObject
    rw [violations_of_not_object wrong, List.mem_singleton]
    constructor
    · rintro rfl
      exact .notObject wrong
    · intro violated
      cases violated with
      | notObject => rfl
      | _ => exact absurd rfl (wrong _)

/-- The places at which something may be wrong, whatever the keys of the dependencies are. -/
inductive IsFound : List PathStep → Prop
  | root : IsFound []
  | property (name : String) : IsFound [.key (.text name)]
  | author (position : Nat) : IsFound [.key (.text "authors"), .index position]
  | dependency (key : Value) : IsFound [.key (.text "dependencies"), .key key]

theorem isFound_of_violated {document : Value} (violated : Violated document v) :
    IsFound v.path := by
  cases violated with
  | notObject => exact .root
  | missing => exact .root
  | notText => exact .property _
  | emptyText => exact .property _
  | authorsNotList => exact .property _
  | noAuthors => exact .property _
  | authorNotText => exact .author _
  | emptyAuthor => exact .author _
  | dependenciesNotObject => exact .property _
  | emptyKey => exact .property _
  | @rangeNotText _ _ key =>
      cases key with
      | null => exact .property _
      | _ => exact .dependency _

theorem keySteps_eq {key : Value} (some : key ≠ .null) : keySteps key = [.key key] := by
  cases key with
  | null => exact absurd rfl some
  | _ => rfl

theorem keySteps_eq_singleton_iff {key other : Value} :
    keySteps key = [.key other] ↔ key ≠ .null ∧ key = other := by
  cases key <;> simp [keySteps]

/-- What stands at the place of a dependency. -/
theorem dependency_of_violated {document key : Value} (violated : Violated document v)
    (place : v.path = [.key (.text "dependencies"), .key key]) :
    ∃ entries own value, document = .object entries ∧
      Value.entry? "dependencies" entries = some (.object own) ∧ (key, value) ∈ own ∧
        key ≠ .null ∧ ∀ s, value ≠ .text s := by
  cases violated with
  | rangeNotText entry dependency wrong =>
      obtain ⟨some, rfl⟩ := keySteps_eq_singleton_iff.mp (List.cons.inj place).2
      exact ⟨_, _, _, rfl, entry, dependency, some, wrong⟩
  | _ => simp at place

/-- A list of values of a function comes from a list of its arguments. -/
theorem exists_map_eq {α β : Type} {f : α → β} {items : List β}
    (each : ∀ item ∈ items, ∃ a, f a = item) : ∃ own : List α, own.map f = items := by
  have inRange : items ∈ Set.range (List.map f) := by
    rw [Set.range_list_map]
    exact each
  exact inRange

/-- A document follows the schema if it violates nothing. -/
theorem follows_of_violations {entries : List (Value × Value)}
    (none : ∀ v, ¬Violated (.object entries) v) : Follows entries := by
  have present (name : String) (required : name ∈ requiredKeys) :
      ∃ value, Value.entry? name entries = some value := by
    cases entry : Value.entry? name entries with
    | none => exact absurd (.missing required entry) (none _)
    | some value => exact ⟨value, rfl⟩
  have isText {name : String} {value : Value} (asked : name ∈ ["name", "version", "description"])
      (entry : Value.entry? name entries = some value) : ∃ s, value = .text s := by
    by_contra wrong
    exact none _ (.notText asked entry (not_exists.mp wrong))
  have nonEmpty {name : String} (required : name ∈ requiredKeys)
      (asked : name ∈ ["name", "version"]) :
      ∃ s, Value.entry? name entries = some (.text s) ∧ s ≠ "" := by
    obtain ⟨value, entry⟩ := present name required
    obtain ⟨s, rfl⟩ := isText (List.mem_append_left ["description"] asked) entry
    refine ⟨s, entry, ?_⟩
    rintro rfl
    exact none _ (.emptyText asked entry)
  refine ⟨nonEmpty (by simp [requiredKeys]) (by simp), nonEmpty (by simp [requiredKeys]) (by simp),
    ?_, ?_, ?_⟩
  · obtain ⟨value, entry⟩ := present "authors" (by simp [requiredKeys])
    have isList : ∃ items, value = .list items := by
      by_contra wrong
      exact none _ (.authorsNotList entry (not_exists.mp wrong))
    obtain ⟨items, rfl⟩ := isList
    have texts : ∀ item ∈ items, ∃ s, Value.text s = item := by
      intro item member
      obtain ⟨position, author⟩ := List.mem_iff_getElem?.mp member
      by_contra wrong
      exact none _ (.authorNotText entry author fun s isText => wrong ⟨s, isText.symm⟩)
    obtain ⟨authors, rfl⟩ := exists_map_eq texts
    refine ⟨authors, entry, ?_, ?_⟩
    · rintro rfl
      exact none _ (.noAuthors entry)
    · intro empty
      have among : Value.text "" ∈ authors.map .text := List.mem_map_of_mem empty
      obtain ⟨position, author⟩ := List.mem_iff_getElem?.mp among
      exact none _ (.emptyAuthor entry author)
  · obtain ⟨value, entry⟩ := present "description" (by simp [requiredKeys])
    obtain ⟨s, rfl⟩ := isText (by simp) entry
    exact ⟨s, entry⟩
  · intro value entry
    have isObject : ∃ own, value = .object own := by
      by_contra wrong
      exact none _ (.dependenciesNotObject entry (not_exists.mp wrong))
    obtain ⟨found, rfl⟩ := isObject
    have texts : ∀ dependency ∈ found,
        ∃ d : Value × String, (d.1, Value.text d.2) = dependency := by
      rintro ⟨key, range⟩ member
      by_contra wrong
      exact none _ (.rangeNotText entry member fun s isText => wrong ⟨(key, s), by rw [isText]⟩)
    obtain ⟨own, rfl⟩ := exists_map_eq texts
    refine ⟨own, rfl, fun key => none _ (.emptyKey entry ?_)⟩
    simpa [List.map_map] using key

theorem not_violated_of_follows {entries : List (Value × Value)} (follows : Follows entries)
    (violated : Violated (.object entries) v) : False := by
  obtain ⟨name, nameEntry, someName⟩ := follows.name
  obtain ⟨version, versionEntry, someVersion⟩ := follows.version
  obtain ⟨authors, authorsEntry, someAuthors, someAuthor⟩ := follows.authors
  obtain ⟨description, descriptionEntry⟩ := follows.description
  cases violated with
  | notObject wrong => exact wrong entries rfl
  | missing required absent =>
      simp only [requiredKeys, List.mem_cons, List.not_mem_nil, or_false] at required
      rcases required with rfl | rfl | rfl | rfl <;> simp_all
  | notText asked entry wrong =>
      simp only [List.mem_cons, List.not_mem_nil, or_false] at asked
      rcases asked with rfl | rfl | rfl <;> simp_all
  | emptyText asked entry =>
      simp only [List.mem_cons, List.not_mem_nil, or_false] at asked
      rcases asked with rfl | rfl <;> simp_all
  | authorsNotList entry wrong => simp_all
  | noAuthors entry => simp_all
  | authorNotText entry author wrong =>
      obtain rfl := Value.list.inj (Option.some.inj (authorsEntry.symm.trans entry))
      obtain ⟨s, -, rfl⟩ := List.mem_map.mp (List.mem_of_getElem? author)
      exact wrong s rfl
  | emptyAuthor entry author =>
      obtain rfl := Value.list.inj (Option.some.inj (authorsEntry.symm.trans entry))
      obtain ⟨s, member, isEmpty⟩ := List.mem_map.mp (List.mem_of_getElem? author)
      cases isEmpty
      exact someAuthor member
  | dependenciesNotObject entry wrong =>
      obtain ⟨own, rfl, -⟩ := follows.dependencies _ entry
      exact wrong _ rfl
  | emptyKey entry key =>
      obtain ⟨own, isObject, someKey⟩ := follows.dependencies _ entry
      obtain rfl := Value.object.inj isObject
      exact someKey (by simpa [List.map_map] using key)
  | rangeNotText entry dependency wrong =>
      obtain ⟨own, isObject, -⟩ := follows.dependencies _ entry
      obtain rfl := Value.object.inj isObject
      obtain ⟨d, -, isEntry⟩ := List.mem_map.mp dependency
      cases isEntry
      exact wrong _ rfl

/-- The documents without violations are those that follow the schema. -/
theorem violations_eq_nil_iff {document : Value} :
    violations document = [] ↔ ∃ entries, document = .object entries ∧ Follows entries := by
  simp only [List.eq_nil_iff_forall_not_mem, mem_violations_iff]
  constructor
  · intro none
    have isObject : ∃ entries, document = .object entries := by
      by_contra wrong
      exact none _ (.notObject (not_exists.mp wrong))
    obtain ⟨entries, rfl⟩ := isObject
    exact ⟨entries, rfl, follows_of_violations none⟩
  · rintro ⟨entries, rfl, follows⟩ v violated
    exact not_violated_of_follows follows violated

/-- What a document that follows the schema says. -/
theorem read?_of_follows {entries : List (Value × Value)} (follows : Follows entries) :
    ∃ read, read? (.object entries) = some read ∧ read.name ≠ "" ∧ read.authors ≠ [] ∧
      "" ∉ read.authors ∧ Value.text "" ∉ read.dependencies.map Prod.fst := by
  obtain ⟨name, nameEntry, someName⟩ := follows.name
  obtain ⟨version, versionEntry, someVersion⟩ := follows.version
  obtain ⟨authors, authorsEntry, someAuthors, someAuthor⟩ := follows.authors
  obtain ⟨description, descriptionEntry⟩ := follows.description
  have texts : authorsOf? (.list (authors.map .text)) = some authors := by
    rw [authorsOf?, List.mapM_map]
    exact (List.mapM_pure (f := id)).trans (congrArg some (List.map_id authors))
  cases entry : Value.entry? "dependencies" entries with
  | none =>
      refine ⟨⟨name, version, authors, description, []⟩, ?_, someName, someAuthors, someAuthor,
        by simp⟩
      simp [read?, nameEntry, versionEntry, authorsEntry, descriptionEntry, entry, texts, textOf?]
  | some value =>
      obtain ⟨own, rfl, someKey⟩ := follows.dependencies value entry
      have ranges : dependenciesOf? (.object (own.map fun d => (d.1, .text d.2))) = some own := by
        rw [dependenciesOf?, List.mapM_map]
        exact (List.mapM_pure (f := id)).trans (congrArg some (List.map_id own))
      refine ⟨⟨name, version, authors, description, own⟩, ?_, someName, someAuthors, someAuthor,
        someKey⟩
      simp [read?, nameEntry, versionEntry, authorsEntry, descriptionEntry, entry, texts, ranges,
        textOf?]

end Schema

end VersionRange
