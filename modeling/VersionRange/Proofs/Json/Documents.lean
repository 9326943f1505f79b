import Mathlib.Data.List.TakeWhile
import VersionRange.Json.Reader
import VersionRange.Proofs.Numeral

/-!
# The values of JSON texts

What is read of a JSON text has no dates and no versions in it, its integers are short
enough to be written, and the keys of its objects are texts no two of which are the same.
-/

namespace VersionRange

open Fallible

namespace Value

/-- An object whose keys are texts. -/
def named (entries : List (String × Value)) : List (Value × Value) :=
  entries.map fun entry => (.text entry.1, entry.2)

/-- A value that a JSON text can stand for. -/
inductive IsJson : Value → Prop
  | null : IsJson .null
  | bool (b : Bool) : IsJson (.bool b)
  | int {n : Int} (short : isWritableNumeral n.natAbs = true) : IsJson (.int n)
  | float (x : Binary64) : IsJson (.float x)
  | text (s : String) : IsJson (.text s)
  | list {items : List Value} (each : ∀ item ∈ items, IsJson item) : IsJson (.list items)
  | object {entries : List (String × Value)} (distinct : (entries.map Prod.fst).Nodup)
      (each : ∀ entry ∈ entries, IsJson entry.2) : IsJson (.object (named entries))

theorem isJson_list_iff {items : List Value} :
    IsJson (.list items) ↔ ∀ item ∈ items, IsJson item := by
  constructor
  · intro json
    cases json with
    | list each => exact each
  · exact .list

theorem isJson_object_iff {entries : List (Value × Value)} :
    IsJson (.object entries) ↔
      ∃ own : List (String × Value), named own = entries ∧ (own.map Prod.fst).Nodup ∧
        ∀ entry ∈ own, IsJson entry.2 := by
  constructor
  · intro json
    cases json with
    | object distinct each => exact ⟨_, rfl, distinct, each⟩
  · rintro ⟨own, rfl, distinct, each⟩
    exact .object distinct each

/-- An entry of an object of JSON has a text for its key. -/
theorem IsJson.of_mem {entries : List (Value × Value)} (json : IsJson (.object entries))
    {entry : Value × Value} (member : entry ∈ entries) :
    (∃ s, entry.1 = .text s) ∧ entry.2.IsJson := by
  obtain ⟨own, rfl, -, each⟩ := isJson_object_iff.mp json
  obtain ⟨named, among, rfl⟩ := List.mem_map.mp member
  exact ⟨⟨named.1, rfl⟩, each named among⟩

@[simp]
theorem sameKey_text (s t : String) : sameKey (.text s) (.text t) = (s == t) :=
  rfl

theorem exists_named_setEntry (name : String) (value : Value) (entries : List (String × Value)) :
    ∃ next : List (String × Value), setEntry (.text name) value (named entries) = named next ∧
      (∀ entry ∈ next, entry = (name, value) ∨ entry ∈ entries) ∧
        next.map Prod.fst =
          if name ∈ entries.map Prod.fst then entries.map Prod.fst
          else entries.map Prod.fst ++ [name] := by
  induction entries with
  | nil => exact ⟨[(name, value)], rfl, by simp, by simp⟩
  | cons entry rest ih =>
      obtain ⟨key, old⟩ := entry
      obtain ⟨next, written, members, keys⟩ := ih
      by_cases same : key = name
      · subst same
        exact ⟨(key, value) :: rest, by simp [named, setEntry], by simp; tauto, by simp⟩
      · refine ⟨(key, old) :: next, ?_, ?_, ?_⟩
        · simpa [named, setEntry, same] using written
        · intro entry member
          rcases List.mem_cons.mp member with rfl | later
          · exact .inr List.mem_cons_self
          · exact (members entry later).imp_right (List.mem_cons_of_mem _)
        · simp only [List.map_cons, keys, List.mem_cons, Ne.symm same, false_or]
          split <;> rfl

/-- Setting an entry keeps the keys distinct. -/
theorem isJson_setEntry {name : String} {value : Value} {entries : List (Value × Value)}
    (before : IsJson (.object entries)) (json : IsJson value) :
    IsJson (.object (setEntry (.text name) value entries)) := by
  obtain ⟨own, rfl, distinct, each⟩ := isJson_object_iff.mp before
  obtain ⟨next, written, members, keys⟩ := exists_named_setEntry name value own
  refine isJson_object_iff.mpr ⟨next, written.symm, ?_, ?_⟩
  · rw [keys]
    split
    next => exact distinct
    next new =>
      rw [List.nodup_append]
      refine ⟨distinct, by simp, ?_⟩
      rintro key among _ isName rfl
      exact new (List.mem_singleton.mp isName ▸ among)
  · intro entry member
    rcases members entry member with rfl | old
    · exact json
    · exact each entry old

theorem itemsWritable_iff {items : List Value} :
    isWritable.itemsWritable items = true ↔ ∀ item ∈ items, item.isWritable = true := by
  induction items with
  | nil => simp [isWritable.itemsWritable]
  | cons item rest ih => simp [isWritable.itemsWritable, ih]

theorem entriesWritable_iff {entries : List (Value × Value)} :
    isWritable.entriesWritable entries = true ↔
      ∀ entry ∈ entries, entry.1.isWritable = true ∧ entry.2.isWritable = true := by
  induction entries with
  | nil => simp [isWritable.entriesWritable]
  | cons entry rest ih => simp [isWritable.entriesWritable, ih, and_assoc]

theorem IsJson.isWritable {value : Value} (json : value.IsJson) : value.isWritable = true := by
  induction json with
  | int short => exact short
  | list _ ih => exact itemsWritable_iff.mpr ih
  | object _ _ ih =>
      refine entriesWritable_iff.mpr fun entry member => ?_
      obtain ⟨own, among, rfl⟩ := List.mem_map.mp member
      exact ⟨rfl, ih own among⟩
  | _ => rfl

end Value

namespace Json

open Value

/-- A whole number without leading zeros, as the reader cuts it off. -/
theorem isNumericForm_whole {body : List Char}
    (some : (if body.head? = some '0' then ['0'] else body.takeWhile Char.isDigit) ≠ []) :
    isNumericForm (if body.head? = .some '0' then ['0'] else body.takeWhile Char.isDigit) =
      true := by
  split at some
  next zero => rw [if_pos zero]; rfl
  next noZero =>
    rw [if_neg noZero]
    refine isNumericForm_iff.mpr ⟨some, fun c member => List.mem_takeWhile_imp member, ?_⟩
    intro head
    cases body with
    | nil => cases head
    | cons c rest =>
        rw [List.takeWhile_cons] at head
        split at head
        · exact absurd head noZero
        · cases head

theorem isJson_of_readNumber {cursor after : Cursor} {value : Value}
    (read : readNumber cursor = .ok (value, after)) : value.IsJson := by
  unfold readNumber at read
  extract_lets negative sign body whole rest fraction exponent length behind at read
  split at read
  · cases read
  next nonempty =>
    have form : isNumericForm whole = true :=
      isNumericForm_whole fun empty => nonempty (List.isEmpty_iff.mpr empty)
    split at read
    · split at read
      next n isNumber =>
        have short := ((readNumeral_eq_ok_iff form).mp isNumber).2
        obtain ⟨rfl, -⟩ := Prod.mk.inj (Except.ok.inj read)
        apply IsJson.int
        split
        · rwa [Int.natAbs_neg, Int.natAbs_natCast]
        · rwa [Int.natAbs_natCast]
      · cases read
    · split at read
      next x _ =>
        obtain ⟨rfl, -⟩ := Prod.mk.inj (Except.ok.inj read)
        exact .float x
      · cases read

theorem isJson_of_readScalar {cursor after : Cursor} {value : Value}
    (read : readScalar cursor = .ok (value, after)) : value.IsJson := by
  unfold readScalar at read
  split at read
  · obtain ⟨⟨text, behind⟩, -, whole⟩ := bind_eq_ok_iff.mp read
    cases whole
    exact .text text
  · split at read
    next name found isName =>
      cases read
      have member := List.mem_of_find?_eq_some isName
      simp only [names, List.mem_cons, Prod.mk.injEq, List.not_mem_nil, or_false] at member
      rcases member with ⟨-, rfl⟩ | ⟨-, rfl⟩ | ⟨-, rfl⟩ | ⟨-, rfl⟩ | ⟨-, rfl⟩ | ⟨-, rfl⟩
      · exact .null
      · exact .bool true
      · exact .bool false
      · exact .float _
      · exact .float _
      · exact .float _
    · exact isJson_of_readNumber read

/-- What the reader gives with a limit and a number of steps, at a value, inside a list and
inside an object. -/
structure ReadsJson (limit steps : Nat) : Prop where
  value {depth : Nat} {cursor after : Cursor} {value : Value} :
    readValue limit steps depth cursor = .ok (value, after) → value.IsJson
  items {depth : Nat} {before : List Value} {cursor after : Cursor} {value : Value} :
    readItems limit steps depth before cursor = .ok (value, after) → IsJson (.list before) →
      value.IsJson
  entries {depth : Nat} {before : List (Value × Value)} {cursor after : Cursor} {value : Value} :
    readEntries limit steps depth before cursor = .ok (value, after) → IsJson (.object before) →
      value.IsJson

theorem readsJson (limit steps : Nat) : ReadsJson limit steps := by
  induction steps with
  | zero =>
      refine ⟨fun read => ?_, fun read _ => ?_, fun read _ => ?_⟩
      · cases read
      · cases read
      · cases read
  | succ steps ih =>
      have empty : IsJson (.object []) := isJson_object_iff.mpr ⟨[], rfl, .nil, by simp⟩
      refine ⟨fun read => ?_, fun read before => ?_, fun read before => ?_⟩
      · unfold readValue at read
        split at read
        · split at read
          · cases read
          · extract_lets inside at read
            split at read
            · cases read
              exact .list (by simp)
            · exact ih.items read (.list (by simp))
        · split at read
          · cases read
          · extract_lets inside at read
            split at read
            · cases read
              exact empty
            · exact ih.entries read empty
        · exact isJson_of_readScalar read
      · unfold readItems at read
        obtain ⟨⟨item, after⟩, first, rest⟩ := bind_eq_ok_iff.mp read
        have longer : IsJson (.list (item :: _)) := isJson_list_iff.mpr
          (List.forall_mem_cons.mpr ⟨ih.value first, isJson_list_iff.mp before⟩)
        dsimp only at rest
        split at rest
        · cases rest
          exact isJson_list_iff.mpr fun own member =>
            isJson_list_iff.mp longer own (List.mem_reverse.mp member)
        · exact ih.items rest longer
        · cases rest
      · unfold readEntries at read
        split at read
        · cases read
        · obtain ⟨⟨name, after⟩, -, rest⟩ := bind_eq_ok_iff.mp read
          dsimp only at rest
          split at rest
          · obtain ⟨⟨value, after⟩, first, rest⟩ := bind_eq_ok_iff.mp rest
            have longer : IsJson (.object (Value.setEntry (.text name) value _)) :=
              isJson_setEntry before (ih.value first)
            dsimp only at rest
            split at rest
            · cases rest
              exact longer
            · exact ih.entries rest longer
            · cases rest
          · cases rest

/-- A JSON text stands for a value of JSON. -/
theorem isJson_of_readChars {limit : Nat} {chars : List Char} {value : Value}
    (read : readCharsWithin limit chars = .ok value) : value.IsJson := by
  unfold readCharsWithin at read
  extract_lets atOffset at read
  split at read
  · cases read
  · split at read
    · cases read
    · cases read
    · cases read
    next found after isValue =>
      extract_lets behind at read
      split at read
      · cases read
        exact (readsJson _ _).value isValue
      · cases read

end Json

end VersionRange
