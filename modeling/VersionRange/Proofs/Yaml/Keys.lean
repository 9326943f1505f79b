import VersionRange.Proofs.Fallible
import VersionRange.Proofs.Keys
import VersionRange.Yaml.Document

/-!
# The keys of YAML texts

What is read of a YAML text has keys that are neither lists nor objects, at every depth: only
scalars become keys, also where mappings are merged into others.
-/

namespace VersionRange.Yaml

open Fallible

theorem isKey_of_moment? {loose : Bool} {chars : List Char} {found : Except Fault Value}
    {value : Value} (written : moment? loose chars = some found) (read : found = .ok value) :
    value.isKey = true := by
  unfold moment? at written
  obtain ⟨⟨⟨date, moment⟩, rest⟩, -, rfl⟩ := Option.map_eq_some_iff.mp written
  dsimp only at read
  split at read
  · split at read
    · cases read
    · cases read
      rfl
  · split at read
    · cases read
    · cases read
      rfl

theorem isKey_of_meaning {text : String} {value : Value}
    (read : meaning text = .ok (.value value)) : value.isKey = true := by
  unfold meaning at read
  extract_lets chars at read
  split at read
  · cases read
    rfl
  · split at read
    · obtain ⟨x, -, same⟩ := map_eq_ok_iff.mp read
      cases same
      rfl
    · split at read
      · obtain ⟨n, -, same⟩ := map_eq_ok_iff.mp read
        cases same
        rfl
      · split at read
        · cases read
        · split at read
          · cases read
            rfl
          · split at read
            · cases read
            · split at read
              next found written =>
                obtain ⟨moment, isMoment, same⟩ := map_eq_ok_iff.mp read
                cases same
                exact isKey_of_moment? written isMoment
              · cases read
                rfl

theorem isKey_of_plainValue {text : String} {value : Value} (read : plainValue text = .ok value) :
    value.isKey = true := by
  unfold plainValue at read
  split at read
  next found isFound =>
    cases read
    exact isKey_of_meaning isFound
  · cases read
  · cases read
  · cases read

theorem ofFault_eq_ok_iff {α : Type} {outcome : Except Fault α} {a : α} :
    Outcome.ofFault outcome = .ok a ↔ outcome = .ok a := by
  cases outcome <;> simp [Outcome.ofFault]

theorem ofOption_eq_ok_iff {α : Type} {found : Option α} {a : α} :
    Outcome.ofOption found = .ok a ↔ found = some a := by
  cases found <;> simp [Outcome.ofOption, Outcome.malformed]

theorem isKey_of_taggedValue {tag text : String} {value : Value}
    (read : taggedValue tag text = .ok value) : value.isKey = true := by
  unfold taggedValue at read
  split at read
  · cases read
    rfl
  · cases read
    rfl
  · extract_lets word at read
    split at read
    · cases read
      rfl
    · cases read
  · obtain ⟨n, -, rfl⟩ := map_eq_ok_iff.mp (ofFault_eq_ok_iff.mp read)
    rfl
  · obtain ⟨x, -, rfl⟩ := map_eq_ok_iff.mp (ofFault_eq_ok_iff.mp read)
    rfl
  · split at read
    · obtain ⟨bytes, -, rfl⟩ := Option.map_eq_some_iff.mp (ofOption_eq_ok_iff.mp read)
      rfl
    · cases read
  · split at read
    next found written => exact isKey_of_moment? written (ofFault_eq_ok_iff.mp read)
    · cases read
  · cases read

theorem isKey_of_scalarValue {steps : Nat} {node : Node} {value : Value}
    (read : scalarValue steps node = .ok value) : value.isKey = true := by
  unfold scalarValue at read
  split at read
  · split at read
    · exact isKey_of_plainValue read
    · cases read
      rfl
  · exact isKey_of_taggedValue read
  · split at read
    · obtain ⟨text, -, rest⟩ := bind_eq_ok_iff.mp read
      split at rest
      · cases rest
      · exact isKey_of_taggedValue rest
    · cases read

theorem isKey_of_keyValue {steps : Nat} {node : Node} {value : Value}
    (read : keyValue steps node = .ok value) : value.isKey = true := by
  unfold keyValue at read
  split at read
  · obtain ⟨text, -, rfl⟩ := map_eq_ok_iff.mp read
    rfl
  · exact isKey_of_scalarValue read

theorem deeper_eq_ok_iff {α : Type} {outcome : Outcome α} {a : α} :
    outcome.deeper = .ok a ↔ outcome = .ok a := by
  cases outcome <;> simp [Outcome.deeper]

theorem both_eq_ok_iff {α β : Type} {first : Outcome α} {second : Outcome β} {found : α × β} :
    Outcome.both first second = .ok found ↔ first = .ok found.1 ∧ second = .ok found.2 := by
  obtain ⟨a, b⟩ := found
  unfold Outcome.both
  split
  · simp
  · simp
  · simp
  · split <;> simp

theorem all_eq_ok_iff {α : Type} {outcomes : List (Outcome α)} {found : List α} :
    Outcome.all outcomes = .ok found ↔
      List.Forall₂ (fun outcome a => outcome = .ok a) outcomes found := by
  induction outcomes generalizing found with
  | nil => cases found <;> simp [Outcome.all]
  | cons first rest ih =>
      rw [Outcome.all, map_eq_ok_iff]
      simp only [both_eq_ok_iff, ih, Prod.exists, List.forall₂_cons_left_iff]
      constructor
      · rintro ⟨a, as, ⟨head, tail⟩, rfl⟩
        exact ⟨a, as, head, tail, rfl⟩
      · rintro ⟨a, as, head, tail, rfl⟩
        exact ⟨a, as, ⟨head, tail⟩, rfl⟩

/-- Whatever the outcome comes to has the property. -/
def Outcome.Gives {α : Type} (p : α → Prop) (outcome : Outcome α) : Prop :=
  ∀ a, outcome = .ok a → p a

theorem forall_mem_of_all {α β : Type} {p : β → Prop} {f : α → Outcome β} {items : List α}
    {found : List β} (each : ∀ item, (f item).Gives p)
    (all : Outcome.all (items.map f) = .ok found) : ∀ b ∈ found, p b := by
  have related := List.forall₂_map_left_iff.mp (all_eq_ok_iff.mp all)
  clear all
  induction related with
  | nil => simp
  | cons head _ ih => exact List.forall_mem_cons.mpr ⟨each _ _ head, ih⟩

/-- An entry with a key and a keyed value. -/
def KeyedEntry (entry : Value × Value) : Prop :=
  entry.1.isKey = true ∧ entry.2.Keyed

theorem keyed_joined {entries : List (Value × Value)}
    (each : ∀ entry ∈ entries, KeyedEntry entry) : Value.Keyed (.object (joined entries)) := by
  have fold (front : List (Value × Value)) (before : Value.Keyed (.object front)) :
      Value.Keyed (.object
        (entries.foldl (fun all entry => Value.setEntry entry.1 entry.2 all) front)) := by
    induction entries generalizing front with
    | nil => exact before
    | cons entry rest ih =>
        obtain ⟨⟨isKey, keyed⟩, others⟩ := List.forall_mem_cons.mp each
        exact ih others _ (Value.keyed_setEntry before isKey keyed)
  exact fold [] (Value.keyed_object_iff.mpr (by simp))

section Nodes

variable {steps : Nat} {inner : Node → Outcome Value}

theorem keyed_of_items {items : List Node} {value : Value}
    (each : ∀ item, (inner item).Gives Value.Keyed)
    (read : Outcome.deeper ((Outcome.all (items.map inner)).map Value.list) = .ok value) :
    value.Keyed := by
  obtain ⟨found, all, rfl⟩ := map_eq_ok_iff.mp (deeper_eq_ok_iff.mp read)
  exact .list (forall_mem_of_all each all)

/-- The entries of a mapping have keys and keyed values, if the values are. -/
theorem keyed_of_entries {own : Option (List (Node × Node))} {found : List (Value × Value)}
    (each : ∀ item, (inner item).Gives Value.Keyed)
    (read : (Outcome.ofOption own >>= fun entries =>
      joined <$> Outcome.all (entries.map (entryOf steps inner))) = .ok found) :
    Value.Keyed (.object found) := by
  obtain ⟨entries, -, rest⟩ := bind_eq_ok_iff.mp read
  obtain ⟨all, whole, rfl⟩ := map_eq_ok_iff.mp rest
  refine keyed_joined (forall_mem_of_all (fun entry result both => ?_) whole)
  obtain ⟨isKey, isValue⟩ := both_eq_ok_iff.mp both
  exact ⟨isKey_of_keyValue isKey, each entry.2 _ isValue⟩

theorem keyed_of_pairOf (each : ∀ item, (inner item).Gives Value.Keyed) (item : Node) :
    (pairOf inner item).Gives Value.Keyed := by
  intro value read
  unfold pairOf at read
  split at read
  · obtain ⟨⟨first, second⟩, both, rfl⟩ := map_eq_ok_iff.mp read
    obtain ⟨isFirst, isSecond⟩ := both_eq_ok_iff.mp both
    exact .pair (each _ _ isFirst) (each _ _ isSecond)
  · cases read

end Nodes

/-- The value of a node has keys that are scalars. -/
theorem keyed_of_valueOf (anchored : List Node) (steps : Nat) (around : List Nat) (node : Node) :
    (valueOf anchored steps around node).Gives Value.Keyed := by
  induction steps generalizing around node with
  | zero =>
      intro value read
      cases read
  | succ steps ih =>
      intro value read
      cases node with
      | scalar tag plain text =>
          rw [valueOf] at read
          split at read
          · cases read
          · exact .single (isKey_of_scalarValue read)
      | again place container =>
          rw [valueOf] at read
          split at read
          · cases read
            exact .again container
          · split at read
            · exact ih around _ value read
            · cases read
      | sequence place tag items =>
          rw [valueOf] at read
          split at read
          · cases read
            exact .again .list
          · extract_lets inner at read
            split at read
            · exact keyed_of_items (ih _) read
            · exact keyed_of_items (fun item => keyed_of_pairOf (ih _) (item.entered anchored)) read
            · exact keyed_of_items (fun item => keyed_of_pairOf (ih _) (item.entered anchored)) read
            · cases read
            · cases read
            · cases read
      | mapping place tag entries =>
          rw [valueOf] at read
          split at read
          · cases read
            exact .again .object
          · extract_lets inner entries at read
            split at read
            · obtain ⟨found, whole, rfl⟩ := map_eq_ok_iff.mp (deeper_eq_ok_iff.mp read)
              exact keyed_of_entries (ih _) whole
            · obtain ⟨found, whole, rfl⟩ := map_eq_ok_iff.mp (deeper_eq_ok_iff.mp read)
              have keyed := Value.keyed_object_iff.mp (keyed_of_entries (ih _) whole)
              refine .set fun key member => ?_
              obtain ⟨entry, among, rfl⟩ := List.mem_map.mp member
              exact (keyed entry among).1
            · cases read
            · cases read
            · cases read
            · exact .single (isKey_of_scalarValue read)

/-- A YAML text stands for a value whose keys are scalars. -/
theorem keyed_of_readChars {levels : Nat} {chars : List Char} {value : Value}
    (read : readCharsWithin levels chars = .ok value) : value.Keyed := by
  unfold readCharsWithin at read
  extract_lets stream at read
  obtain ⟨tree, -, rest⟩ := bind_eq_ok_iff.mp read
  cases tree with
  | none =>
      cases rest
      exact .single rfl
  | some tree => exact keyed_of_valueOf _ _ _ _ value (mapError_eq_ok_iff.mp rest)

end VersionRange.Yaml
