import Mathlib.Data.List.Lex
import Mathlib.Data.List.Sigma
import VersionRange.Proofs.Json.Documents
import VersionRange.Proofs.Manifest.Constraints
import VersionRange.Proofs.Sorting

/-!
# The order of violations

Violations are sorted by their places: a place comes before those below it, and two places
that part come in the order of the keys or of the positions at which they part.  In a document
of JSON a key never meets a position there, since two violations with the same place so far
are both about authors or both about dependencies.  Violations at the same place keep the
order of the schema.
-/

namespace VersionRange

open Fallible

theorem codePoint_injective : Function.Injective codePoint := by
  intro c d same
  have range (e : Char) : e.toNat < 0xD800 ∨ 0xDFFF < e.toNat := by
    have valid := e.valid
    change e.toNat < 0xD800 ∨ 0xDFFF < e.toNat ∧ e.toNat < 0x110000 at valid
    omega
  have half (n : Nat) : isSurrogate n = true ↔ 0xD800 ≤ n ∧ n ≤ 0xDFFF := by
    simp only [isSurrogate, isHighSurrogate, isLowSurrogate, Bool.or_eq_true, Bool.and_eq_true,
      decide_eq_true_eq]
    omega
  apply Char.toNat_inj.mp
  have first := range c
  have second := range d
  unfold codePoint at same
  split at same <;> split at same <;> simp only [half, standInDistance] at * <;> omega

theorem textBefore_irrefl (s : String) : ¬textBefore s s = true := by
  simp [textBefore]

theorem textBefore_trans {s t u : String} (first : textBefore s t = true)
    (second : textBefore t u = true) : textBefore s u = true := by
  simp only [textBefore, decide_eq_true_eq] at *
  exact first.trans second

theorem textBefore_trichotomy (s t : String) :
    textBefore s t = true ∨ s = t ∨ textBefore t s = true := by
  simp only [textBefore, decide_eq_true_eq]
  rcases lt_trichotomy (s.toList.map codePoint) (t.toList.map codePoint) with before | same | after
  · exact .inl before
  · exact .inr (.inl (String.toList_inj.mp (codePoint_injective.list_map same)))
  · exact .inr (.inr after)

namespace Schema

/-- A step comes before another: keys in the order of their texts, positions as numbers. -/
inductive StepBefore : PathStep → PathStep → Prop
  | key {s t : String} (before : textBefore s t = true) :
      StepBefore (.key (.text s)) (.key (.text t))
  | position {i j : Nat} (before : i < j) : StepBefore (.index i) (.index j)

theorem StepBefore.trans {a b c : PathStep} (first : StepBefore a b) (second : StepBefore b c) :
    StepBefore a c := by
  cases first with
  | key before =>
      cases second with
      | key further => exact .key (textBefore_trans before further)
  | position before =>
      cases second with
      | position further => exact .position (before.trans further)

theorem stepBefore_irrefl (step : PathStep) : ¬StepBefore step step := by
  intro before
  cases before with
  | key wrong => exact textBefore_irrefl _ wrong
  | position wrong => exact Nat.lt_irrefl _ wrong

/-- A place comes before another: by being above it, or at the first step at which they
part. -/
abbrev PlaceBefore : List PathStep → List PathStep → Prop :=
  List.Lex StepBefore

theorem placeBefore_irrefl (place : List PathStep) : ¬PlaceBefore place place :=
  List.lex_irrefl stepBefore_irrefl place

theorem PlaceBefore.trans {as bs cs : List PathStep} (first : PlaceBefore as bs)
    (second : PlaceBefore bs cs) : PlaceBefore as cs :=
  List.lex_trans StepBefore.trans first second

/-- Two keys, or two positions. -/
inductive Alike : PathStep → PathStep → Prop
  | keys (s t : String) : Alike (.key (.text s)) (.key (.text t))
  | positions (i j : Nat) : Alike (.index i) (.index j)

/-- Two places that part at two keys, at two positions or not at all. -/
inductive Comparable : List PathStep → List PathStep → Prop
  | nil_left (place : List PathStep) : Comparable [] place
  | nil_right (place : List PathStep) : Comparable place []
  | cons {a b : PathStep} {as bs : List PathStep} (alike : Alike a b)
      (behind : a = b → Comparable as bs) : Comparable (a :: as) (b :: bs)

/-- The comparison at two steps goes on behind them or is settled by them. -/
theorem placeLess_cons {a b : PathStep} (alike : Alike a b) (as bs : List PathStep) :
    (a = b ∧ placeLess (a :: as) (b :: bs) = placeLess as bs) ∨
      (StepBefore a b ∧ placeLess (a :: as) (b :: bs) = .ok true) ∨
        (a ≠ b ∧ StepBefore b a ∧ placeLess (a :: as) (b :: bs) = .ok false) := by
  cases alike with
  | keys s t =>
      have compared : placeLess (.key (.text s) :: as) (.key (.text t) :: bs) =
          if s = t then placeLess as bs else .ok (textBefore s t) := by
        simp only [placeLess, stepValue, Value.sameKey_text, beq_iff_eq]
        rfl
      rw [compared]
      by_cases same : s = t
      · exact .inl ⟨by rw [same], if_pos same⟩
      · rw [if_neg same]
        rcases textBefore_trichotomy s t with before | equal | after
        · exact .inr (.inl ⟨.key before, by rw [before]⟩)
        · exact absurd equal same
        · refine .inr (.inr ⟨by simpa using same, .key after, ?_⟩)
          have not : ¬textBefore s t = true := fun before =>
            textBefore_irrefl s (textBefore_trans before after)
          rw [Bool.not_eq_true] at not
          rw [not]
  | positions i j =>
      have same : (Value.int i).sameKey (.int j) = (i == j) := by
        rw [Bool.eq_iff_iff]
        simp only [Value.sameKey, Value.wholeNumber?, beq_iff_eq]
        omega
      have less : (Value.int i).less (.int j) = .ok (decide (i < j)) := by
        simp [Value.less, Value.rational?]
      have compared : placeLess (.index i :: as) (.index j :: bs) =
          if i = j then placeLess as bs else .ok (decide (i < j)) := by
        simp only [placeLess, stepValue, same, less, beq_iff_eq]
        rfl
      rw [compared]
      rcases Nat.lt_trichotomy i j with before | rfl | after
      · rw [if_neg before.ne]
        exact .inr (.inl ⟨.position before, by simp [before]⟩)
      · exact .inl ⟨rfl, if_pos rfl⟩
      · rw [if_neg after.ne']
        exact .inr (.inr ⟨by simpa using after.ne', .position after, by simp [after.le]⟩)

theorem Comparable.decides {as bs : List PathStep} (comparable : Comparable as bs) :
    Decides placeLess PlaceBefore as bs := by
  induction comparable with
  | nil_left place =>
      cases place with
      | nil => exact .inr ⟨rfl, placeBefore_irrefl []⟩
      | cons step rest => exact .inl ⟨rfl, .nil⟩
  | nil_right place =>
      refine .inr ⟨by rw [placeLess], ?_⟩
      rintro ⟨⟩
  | @cons a b as bs alike _ ih =>
      rcases placeLess_cons alike as bs with ⟨rfl, compared⟩ | ⟨before, compared⟩ |
        ⟨apart, after, compared⟩
      · rcases ih rfl with ⟨less, before⟩ | ⟨less, notBefore⟩
        · exact .inl ⟨compared.trans less, .cons before⟩
        · refine .inr ⟨compared.trans less, fun before => ?_⟩
          cases before with
          | cons further => exact notBefore further
          | rel wrong => exact stepBefore_irrefl _ wrong
      · exact .inl ⟨compared, .rel before⟩
      · refine .inr ⟨compared, fun before => ?_⟩
        exact placeBefore_irrefl _ (before.trans (.rel after))

theorem Comparable.trichotomy {as bs : List PathStep} (comparable : Comparable as bs) :
    PlaceBefore as bs ∨ as = bs ∨ PlaceBefore bs as := by
  induction comparable with
  | nil_left place =>
      cases place with
      | nil => exact .inr (.inl rfl)
      | cons step rest => exact .inl .nil
  | nil_right place =>
      cases place with
      | nil => exact .inr (.inl rfl)
      | cons step rest => exact .inr (.inr .nil)
  | @cons a b as bs alike _ ih =>
      rcases placeLess_cons alike as bs with ⟨rfl, -⟩ | ⟨before, -⟩ | ⟨-, after, -⟩
      · rcases ih rfl with before | rfl | after
        · exact .inl (.cons before)
        · exact .inr (.inl rfl)
        · exact .inr (.inr (.cons after))
      · exact .inl (.rel before)
      · exact .inr (.inr (.rel after))

/-- The places at which something may be wrong, where the keys of the dependencies are
texts. -/
inductive IsPlace : List PathStep → Prop
  | root : IsPlace []
  | property (name : String) : IsPlace [.key (.text name)]
  | author (position : Nat) : IsPlace [.key (.text "authors"), .index position]
  | dependency (name : String) : IsPlace [.key (.text "dependencies"), .key (.text name)]

theorem comparable_of_isPlace {as bs : List PathStep} (first : IsPlace as) (second : IsPlace bs) :
    Comparable as bs := by
  have nils (place : List PathStep) (a b : PathStep) : a = b → Comparable [] place :=
    fun _ => .nil_left place
  cases first with
  | root => exact .nil_left bs
  | property name =>
      cases second with
      | root => exact .nil_right _
      | property other => exact .cons (.keys _ _) (nils _ _ _)
      | author position => exact .cons (.keys _ _) (nils _ _ _)
      | dependency key => exact .cons (.keys _ _) (nils _ _ _)
  | author position =>
      cases second with
      | root => exact .nil_right _
      | property other => exact .cons (.keys _ _) fun _ => .nil_right _
      | author further => exact .cons (.keys _ _) fun _ => .cons (.positions _ _) (nils _ _ _)
      -- The places part at their first keys.
      | dependency key => exact .cons (.keys _ _) fun same => by simp at same
  | dependency key =>
      cases second with
      | root => exact .nil_right _
      | property other => exact .cons (.keys _ _) fun _ => .nil_right _
      | author position => exact .cons (.keys _ _) fun same => by simp at same
      | dependency further => exact .cons (.keys _ _) fun _ => .cons (.keys _ _) (nils _ _ _)

theorem checkStep_of_isPlace {place : List PathStep} (isPlace : IsPlace place) {step : PathStep}
    (among : step ∈ place) : checkStep step = .ok () := by
  cases isPlace with
  | root => cases among
  | property name =>
      obtain rfl := List.mem_singleton.mp among
      rfl
  | author position =>
      simp only [List.mem_cons, List.not_mem_nil, or_false] at among
      rcases among with rfl | rfl
      · rfl
      · rfl
  | dependency name =>
      simp only [List.mem_cons, List.not_mem_nil, or_false] at among
      rcases among with rfl | rfl
      · rfl
      · rfl

theorem isJson_of_found {name : String} {entries : List (Value × Value)} {value : Value}
    (json : Value.IsJson (.object entries)) (entry : Value.entry? name entries = some value) :
    value.IsJson := by
  obtain ⟨found, isEntry, rfl⟩ := Option.map_eq_some_iff.mp entry
  exact (json.of_mem (List.mem_of_find?_eq_some isEntry)).2

theorem isPlace_of_isFound {place : List PathStep} (found : IsFound place)
    (texts : ∀ key, place = [.key (.text "dependencies"), .key key] → ∃ s, key = .text s) :
    IsPlace place := by
  cases found with
  | root => exact .root
  | property name => exact .property name
  | author position => exact .author position
  | dependency key =>
      obtain ⟨s, rfl⟩ := texts key rfl
      exact .dependency s

theorem isPlace_of_violated {document : Value} {v : Violation} (json : document.IsJson)
    (violated : Violated document v) : IsPlace v.path := by
  refine isPlace_of_isFound (isFound_of_violated violated) fun key place => ?_
  obtain ⟨entries, own, value, rfl, entry, dependency, -, -⟩ :=
    dependency_of_violated violated place
  exact ((isJson_of_found json entry).of_mem dependency).1

/-- The values that the violations of a document of JSON are about can be written. -/
theorem isWritable_of_violated {document : Value} {v : Violation} (json : document.IsJson)
    (violated : Violated document v) : v.problem.value.isWritable = true := by
  cases violated with
  | notObject => exact json.isWritable
  | missing => rfl
  | notText _ entry => exact (isJson_of_found json entry).isWritable
  | emptyText => rfl
  | authorsNotList entry => exact (isJson_of_found json entry).isWritable
  | noAuthors => rfl
  | authorNotText entry author =>
      have authors := Value.isJson_list_iff.mp (isJson_of_found json entry)
      exact (authors _ (List.mem_of_getElem? author)).isWritable
  | emptyAuthor => rfl
  | dependenciesNotObject entry => exact (isJson_of_found json entry).isWritable
  | emptyKey => rfl
  | rangeNotText entry dependency =>
      exact ((isJson_of_found json entry).of_mem dependency).2.isWritable

/-- Two missing keys of the same object, in the order in which the schema asks for them. -/
structure InTurn (a b : Violation) : Prop where
  path : a.path = b.path
  missing : ∃ first second, a.problem = .missing first ∧ b.problem = .missing second ∧
    requiredKeys.idxOf first < requiredKeys.idxOf second

theorem InTurn.trans {a b c : Violation} (first : InTurn a b) (second : InTurn b c) :
    InTurn a c := by
  obtain ⟨same, name, next, isName, isNext, before⟩ := first
  obtain ⟨further, _, last, isNext', isLast, behind⟩ := second
  obtain rfl := ViolationProblem.missing.inj (isNext.symm.trans isNext')
  exact ⟨same.trans further, name, last, isName, isLast, before.trans behind⟩

theorem ranking : Ranking (fun a b : Violation => PlaceBefore a.path b.path) InTurn where
  trans := PlaceBefore.trans
  before_tie before tied := tied.path ▸ before
  tie_before tied before := tied.path ▸ before
  tie_trans := InTurn.trans

/-- Two violations are at different places, or tell of missing keys in their turn. -/
def Apart (a b : Violation) : Prop :=
  a.path ≠ b.path ∨ InTurn a b

variable {path : List PathStep} {value : Value}

theorem apart_textViolations : (textViolations path value).Pairwise Apart := by
  unfold textViolations
  split
  · exact .nil
  · exact List.pairwise_singleton _ _

theorem apart_nonEmptyTextViolations : (nonEmptyTextViolations path value).Pairwise Apart := by
  unfold nonEmptyTextViolations
  split
  · exact List.pairwise_singleton _ _
  · exact apart_textViolations

theorem path_of_mem_textViolations {v : Violation} (member : v ∈ textViolations path value) :
    v.path = path := by
  obtain ⟨-, rfl⟩ := mem_textViolations_iff.mp member
  rfl

theorem path_of_mem_nonEmptyTextViolations {v : Violation}
    (member : v ∈ nonEmptyTextViolations path value) : v.path = path := by
  rcases mem_nonEmptyTextViolations_iff.mp member with ⟨-, rfl⟩ | ⟨-, rfl⟩
  · rfl
  · rfl

/-- The violations of parts at different places below a place are apart. -/
theorem apart_flatten {α : Type} {parts : List α} {check : α → List Violation}
    (step : α → PathStep) (steps : parts.Pairwise fun a b => step a ≠ step b)
    (each : ∀ part ∈ parts, (check part).Pairwise Apart)
    (paths : ∀ part ∈ parts, ∀ v ∈ check part, v.path = path ++ [step part]) :
    (parts.map check).flatten.Pairwise Apart := by
  refine List.pairwise_flatten.mpr ⟨?_, List.pairwise_map.mpr ?_⟩
  · intro found member
    obtain ⟨part, among, rfl⟩ := List.mem_map.mp member
    exact each part among
  · refine steps.imp_of_mem ?_
    intro a b first second differ v isFirst w isSecond
    left
    rw [paths a first v isFirst, paths b second w isSecond]
    simpa using differ

theorem apart_authorsViolations : (authorsViolations path value).Pairwise Apart := by
  by_cases isList : ∃ items, value = .list items
  · obtain ⟨items, rfl⟩ := isList
    cases items with
    | nil => exact List.pairwise_singleton _ _
    | cons item rest =>
        rw [authorsViolations_list (by simp)]
        refine apart_flatten (fun entry => .index entry.2) ?_
          (fun _ _ => apart_nonEmptyTextViolations)
          (fun _ _ _ found => path_of_mem_nonEmptyTextViolations found)
        have positions := List.nodup_zipIdx_map_snd (item :: rest)
        exact (List.pairwise_map.mp positions).imp fun differ same =>
          differ (PathStep.index.inj same)
  · rw [authorsViolations_of_not_list (not_exists.mp isList)]
    exact List.pairwise_singleton _ _

/-- Only one key is empty. -/
theorem apart_keyViolations {own : List (String × Value)} (distinct : (own.map Prod.fst).Nodup) :
    ((Value.named own).map fun entry => keyViolations path entry.1).flatten.Pairwise Apart := by
  refine List.pairwise_flatten.mpr ⟨?_, ?_⟩
  · intro found member
    obtain ⟨entry, -, rfl⟩ := List.mem_map.mp member
    unfold keyViolations
    split
    · exact List.pairwise_singleton _ _
    · exact .nil
  · refine List.pairwise_map.mpr (List.pairwise_map.mpr ((List.pairwise_map.mp distinct).imp ?_))
    intro a b differ v isFirst w isSecond
    have first := (mem_keyViolations_iff.mp isFirst).1
    have second := (mem_keyViolations_iff.mp isSecond).1
    exact absurd (Value.text.inj (first.trans second.symm)) differ

theorem apart_dependenciesViolations (json : value.IsJson) :
    (dependenciesViolations path value).Pairwise Apart := by
  by_cases isObject : ∃ entries, value = .object entries
  · obtain ⟨entries, rfl⟩ := isObject
    obtain ⟨own, rfl, distinct, -⟩ := Value.isJson_object_iff.mp json
    have named {entry : Value × Value} (member : entry ∈ Value.named own) :
        keySteps entry.1 = [.key entry.1] := by
      obtain ⟨_, -, rfl⟩ := List.mem_map.mp member
      rfl
    rw [dependenciesViolations_object]
    refine List.pairwise_append.mpr ⟨apart_keyViolations distinct, ?_, ?_⟩
    · refine apart_flatten (fun entry => .key entry.1) ?_ (fun _ _ => apart_textViolations)
        (fun entry member _ found => named member ▸ path_of_mem_textViolations found)
      refine List.pairwise_map.mpr ((List.pairwise_map.mp distinct).imp fun differ same => ?_)
      exact differ (Value.text.inj (PathStep.key.inj same))
    · intro v isFirst w isSecond
      left
      obtain ⟨_, key, atKey⟩ := List.mem_flatten.mp isFirst
      obtain ⟨_, -, rfl⟩ := List.mem_map.mp key
      obtain ⟨_, entry, atValue⟩ := List.mem_flatten.mp isSecond
      obtain ⟨_, member, rfl⟩ := List.mem_map.mp entry
      obtain ⟨-, rfl⟩ := mem_keyViolations_iff.mp atKey
      rw [path_of_mem_textViolations atValue, named member]
      simp
  · rw [dependenciesViolations_of_not_object (not_exists.mp isObject)]
    exact List.pairwise_singleton _ _

theorem apart_property {property : String × (List PathStep → Value → List Violation)}
    (known : property ∈ properties) (json : value.IsJson) :
    (property.2 path value).Pairwise Apart := by
  simp only [properties, List.mem_cons, List.not_mem_nil, or_false] at known
  rcases known with rfl | rfl | rfl | rfl | rfl
  · exact apart_nonEmptyTextViolations
  · exact apart_nonEmptyTextViolations
  · exact apart_authorsViolations
  · exact apart_textViolations
  · exact apart_dependenciesViolations json

/-- The violations of the value at a key lie at the key or below it. -/
theorem path_of_mem_property {property : String × (List PathStep → Value → List Violation)}
    (known : property ∈ properties) {v : Violation} (member : v ∈ property.2 path value) :
    path <+: v.path := by
  have atItem {step : PathStep} {item : Value}
      (found : v ∈ nonEmptyTextViolations (path ++ [step]) item) : path <+: v.path := by
    rw [path_of_mem_nonEmptyTextViolations found]
    exact List.prefix_append _ _
  simp only [properties, List.mem_cons, List.not_mem_nil, or_false] at known
  rcases known with rfl | rfl | rfl | rfl | rfl
  · exact (path_of_mem_nonEmptyTextViolations member).symm ▸ List.prefix_rfl
  · exact (path_of_mem_nonEmptyTextViolations member).symm ▸ List.prefix_rfl
  · rcases mem_authorsViolations_iff.mp member with ⟨-, rfl⟩ | ⟨-, rfl⟩ | ⟨_, _, _, -, -, found⟩
    · exact List.prefix_rfl
    · exact List.prefix_rfl
    · exact atItem found
  · exact (path_of_mem_textViolations member).symm ▸ List.prefix_rfl
  · rcases mem_dependenciesViolations_iff.mp member with ⟨-, rfl⟩ | ⟨_, -, ⟨-, rfl⟩ | ⟨_, -, found⟩⟩
    · exact List.prefix_rfl
    · exact List.prefix_rfl
    · rw [path_of_mem_textViolations found]
      exact List.prefix_append _ _

theorem apart_violationsAt {entries : List (Value × Value)}
    {property : String × (List PathStep → Value → List Violation)} (known : property ∈ properties)
    (json : Value.IsJson (.object entries)) : (violationsAt entries property).Pairwise Apart := by
  unfold violationsAt
  split
  next value entry => exact apart_property known (isJson_of_found json entry)
  · exact .nil

theorem path_of_mem_violationsAt {entries : List (Value × Value)}
    {property : String × (List PathStep → Value → List Violation)} (known : property ∈ properties)
    {v : Violation} (member : v ∈ violationsAt entries property) :
    v.path.head? = some (.key (.text property.1)) := by
  obtain ⟨value, -, found⟩ := mem_violationsAt_iff.mp member
  obtain ⟨rest, whole⟩ := path_of_mem_property known found
  rw [← whole]
  rfl

/-- Only missing keys are found at the same place. -/
theorem apart_violations {document : Value} (json : document.IsJson) :
    (violations document).Pairwise Apart := by
  by_cases isObject : ∃ entries, document = .object entries
  · obtain ⟨entries, rfl⟩ := isObject
    rw [violations_object]
    refine List.pairwise_append.mpr ⟨?_, List.pairwise_flatten.mpr ⟨?_, ?_⟩, ?_⟩
    · have turns : requiredKeys.Pairwise fun first second =>
          requiredKeys.idxOf first < requiredKeys.idxOf second := by decide
      refine List.pairwise_map.mpr ((turns.filter _).imp fun {first second} before => ?_)
      exact .inr ⟨rfl, first, second, rfl, rfl, before⟩
    · intro found member
      obtain ⟨property, known, rfl⟩ := List.mem_map.mp member
      exact apart_violationsAt known json
    · have names : properties.Pairwise fun first second => first.1 ≠ second.1 := by
        simp [properties]
      refine List.pairwise_map.mpr (names.imp_of_mem ?_)
      intro first second isFirst isSecond differ v atFirst w atSecond
      left
      intro same
      have heads := path_of_mem_violationsAt isFirst atFirst
      rw [same, path_of_mem_violationsAt isSecond atSecond] at heads
      simp only [Option.some.injEq, PathStep.key.injEq, Value.text.injEq] at heads
      exact differ heads.symm
    · intro v isMissing w below
      left
      intro same
      obtain ⟨name, -, rfl⟩ := List.mem_map.mp isMissing
      obtain ⟨_, among, found⟩ := List.mem_flatten.mp below
      obtain ⟨property, known, rfl⟩ := List.mem_map.mp among
      have head := path_of_mem_violationsAt known found
      rw [← same] at head
      cases head
  · rw [violations_of_not_object (not_exists.mp isObject)]
    exact List.pairwise_singleton _ _

theorem checkWritable_eq_ok_iff {value : Value} :
    checkWritable value = .ok () ↔ value.isWritable = true := by
  unfold checkWritable
  split <;> simp [*]

theorem checkTellable_eq_ok_iff {fits : Value → Bool} {value : Value} :
    checkTellable fits value = .ok () ↔ fits value = true ∧ value.isWritable = true := by
  unfold checkTellable
  split <;> simp [*, checkWritable_eq_ok_iff]

theorem sortedWithin_eq_ok_iff {fits : Value → Bool} {found told : List Violation} :
    sortedWithin fits found = .ok told ↔
      (∀ v ∈ found, checkTellable fits v.problem.value = .ok ()) ∧
        sortChecked (fun a b => placeLess a.path b.path) found = .ok told ∧
          ∀ v ∈ told, ∀ step ∈ v.path, checkStep step = .ok () := by
  simp only [sortedWithin, bind_eq_ok_iff, forIn_eq_ok_iff]
  constructor
  · rintro ⟨-, values, _, inOrder, -, steps, ⟨⟩⟩
    exact ⟨values, inOrder, steps⟩
  · rintro ⟨values, inOrder, steps⟩
    exact ⟨(), values, told, inOrder, (), steps, rfl⟩

/-- The violations of a document of JSON are told in the order of their places. -/
theorem exists_sorted {document : Value} (json : document.IsJson) :
    ∃ told, sortedWithin everyFits (violations document) = .ok told ∧
      told.Perm (violations document) ∧
      told.Pairwise fun a b => PlaceBefore a.path b.path ∨ InTurn a b := by
  have place {v : Violation} (member : v ∈ violations document) : IsPlace v.path :=
    isPlace_of_violated json (mem_violations_iff.mp member)
  have comparable {v w : Violation} (first : v ∈ violations document)
      (second : w ∈ violations document) : Comparable v.path w.path :=
    comparable_of_isPlace (place first) (place second)
  have decides : ∀ v ∈ violations document, ∀ w ∈ violations document,
      Decides (fun a b : Violation => placeLess a.path b.path)
        (fun a b => PlaceBefore a.path b.path) v w :=
    fun v first w second => (comparable first second).decides
  have placed : (violations document).Pairwise fun a b =>
      PlaceBefore a.path b.path ∨ PlaceBefore b.path a.path ∨ InTurn a b := by
    refine (apart_violations json).imp_of_mem ?_
    rintro v w first second (differ | turn)
    · rcases (comparable first second).trichotomy with before | same | after
      · exact .inl before
      · exact absurd same differ
      · exact .inr (.inl after)
    · exact .inr (.inr turn)
  obtain ⟨told, inOrder, kept, order⟩ := sortChecked_of_ranking ranking decides placed
  refine ⟨told, sortedWithin_eq_ok_iff.mpr ⟨?_, inOrder, ?_⟩, kept, order⟩
  · intro v member
    exact checkTellable_eq_ok_iff.mpr
      ⟨rfl, isWritable_of_violated json (mem_violations_iff.mp member)⟩
  · intro v member step among
    exact checkStep_of_isPlace (place (kept.mem_iff.mp member)) among

end Schema

end VersionRange
