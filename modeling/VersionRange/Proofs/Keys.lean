import VersionRange.Proofs.Json.Documents
import VersionRange.Value.Order

/-!
# Keys that have an order

The keys of an object are texts, numbers, bytes, dates, moments or nothing at all.  Two of them are
the same key or have an order just if they are of one sort, where moments in a known zone and
moments in no known zone are two sorts.
-/

namespace VersionRange

namespace Value

/-- What keys are grouped by: keys of one sort have an order or are the same. -/
inductive KeySort
  | null
  | number
  | text
  | bytes
  | date
  | moment (zoned : Bool)
  | version (value : Version)

/-- The sort of a value that may be a key. -/
def keySort? : Value → Option KeySort
  | null => some .null
  | bool _ | int _ | float _ => some .number
  | text _ => some .text
  | bytes _ => some .bytes
  | date _ => some .date
  | moment m => some (.moment m.zone.isSome)
  | version v => some (.version v)
  | list _ | pair .. | set _ | object _ | again _ => none

theorem exists_keySort_iff {key : Value} :
    (∃ sort, key.keySort? = some sort) ↔ key.isKey = true := by
  cases key <;> simp [keySort?, isKey]

/-- Two keys are the same, or one of them comes before the other or they are equal. -/
def Meets (a b : Value) : Prop :=
  a.sameKey b = true ∨ ∃ below, a.less b = .ok below

theorem keySort?_of_rational? {a : Value} {q : Int × Int × Nat} (number : a.rational? = some q) :
    a.keySort? = some .number := by
  unfold rational? at number
  split at number
  · rfl
  · rfl
  · rfl
  · rfl
  · cases number

theorem keySort?_of_isNumber {a : Value} (number : less.isNumber a = true) :
    a.keySort? = some .number := by
  unfold less.isNumber at number
  split at number
  · rfl
  · rfl
  · rfl
  · cases number

theorem keySort?_of_wholeNumber? {a : Value} {n : Int} (number : a.wholeNumber? = some n) :
    a.keySort? = some .number := by
  unfold wholeNumber? at number
  split at number
  · rfl
  · rfl
  · cases number

/-- Values that have an order are of one sort. -/
theorem keySort?_of_less {a b : Value} {below : Bool} (compared : a.less b = .ok below) :
    ∃ sort, a.keySort? = some sort ∧ b.keySort? = some sort := by
  unfold less at compared
  split at compared
  · exact ⟨_, rfl, rfl⟩
  · exact ⟨_, rfl, rfl⟩
  · exact ⟨_, rfl, rfl⟩
  · split at compared
    next zones =>
      have same := beq_iff_eq.mp zones
      exact ⟨_, rfl, by rw [keySort?, ← same]⟩
    · cases compared
  · cases compared
  · cases compared
  · split at compared
    next number => exact ⟨_, rfl, keySort?_of_isNumber number⟩
    · cases compared
  · split at compared
    next number => exact ⟨_, keySort?_of_isNumber number, rfl⟩
    · cases compared
  · split at compared
    next first second => exact ⟨_, keySort?_of_rational? first, keySort?_of_rational? second⟩
    · cases compared

/-- Values that are the same key are of one sort. -/
theorem keySort?_of_sameKey {a b : Value} (same : a.sameKey b = true) :
    ∃ sort, a.keySort? = some sort ∧ b.keySort? = some sort := by
  unfold sameKey at same
  split at same
  · exact ⟨_, rfl, rfl⟩
  · exact ⟨_, rfl, rfl⟩
  · exact ⟨_, rfl, rfl⟩
  · exact ⟨_, rfl, rfl⟩
  · have zones := beq_iff_eq.mp (Bool.and_eq_true_iff.mp same).1
    exact ⟨_, rfl, by rw [keySort?, ← zones]⟩
  · obtain rfl := beq_iff_eq.mp same
    exact ⟨_, rfl, rfl⟩
  · exact ⟨_, rfl, rfl⟩
  · cases whole : b.wholeNumber? with
    | none => simp [whole] at same
    | some n => exact ⟨_, rfl, keySort?_of_wholeNumber? whole⟩
  · cases whole : a.wholeNumber? with
    | none => simp [whole] at same
    | some n => exact ⟨_, keySort?_of_wholeNumber? whole, rfl⟩
  · split at same
    next first second =>
      exact ⟨_, keySort?_of_wholeNumber? first, keySort?_of_wholeNumber? second⟩
    · cases same

/-- The forms of numbers. -/
theorem forms_of_number {a : Value} (number : a.keySort? = some .number) :
    (∃ b, a = .bool b) ∨ (∃ n, a = .int n) ∨ a = .float .nan ∨
      (∃ negative, a = .float (.infinite negative)) ∨
        ∃ negative mantissa exponent, a = .float (.finite negative mantissa exponent) := by
  cases a with
  | bool b => exact .inl ⟨b, rfl⟩
  | int n => exact .inr (.inl ⟨n, rfl⟩)
  | float x =>
      cases x with
      | nan => exact .inr (.inr (.inl rfl))
      | infinite negative => exact .inr (.inr (.inr (.inl ⟨negative, rfl⟩)))
      | finite negative mantissa exponent =>
          exact .inr (.inr (.inr (.inr ⟨negative, mantissa, exponent, rfl⟩)))
  | _ => cases number

/-- Numbers have an order. -/
theorem exists_less_of_number {a b : Value} (first : a.keySort? = some .number)
    (second : b.keySort? = some .number) : ∃ below, a.less b = .ok below := by
  rcases forms_of_number first with ⟨_, rfl⟩ | ⟨_, rfl⟩ | rfl | ⟨_, rfl⟩ | ⟨_, _, _, rfl⟩ <;>
    rcases forms_of_number second with ⟨_, rfl⟩ | ⟨_, rfl⟩ | rfl | ⟨_, rfl⟩ | ⟨_, _, _, rfl⟩ <;>
      exact ⟨_, rfl⟩

/-- Two values meet if they are keys of one sort. -/
theorem meets_iff {a b : Value} :
    a.Meets b ↔ ∃ sort, a.keySort? = some sort ∧ b.keySort? = some sort := by
  constructor
  · rintro (same | ⟨below, compared⟩)
    · exact keySort?_of_sameKey same
    · exact keySort?_of_less compared
  · rintro ⟨sort, first, second⟩
    cases sort with
    | null =>
        cases a <;> cases first
        cases b <;> cases second
        exact .inl rfl
    | number => exact .inr (exists_less_of_number first second)
    | text =>
        cases a <;> cases first
        cases b <;> cases second
        exact .inr ⟨_, rfl⟩
    | bytes =>
        cases a <;> cases first
        cases b <;> cases second
        exact .inr ⟨_, rfl⟩
    | date =>
        cases a <;> cases first
        cases b <;> cases second
        exact .inr ⟨_, rfl⟩
    | moment zoned =>
        cases a <;> cases first
        cases b <;> simp [keySort?] at second
        exact .inr ⟨_, if_pos (beq_iff_eq.mpr second.symm)⟩
    | version v =>
        cases a <;> cases first
        cases b <;> cases second
        exact .inl (beq_self_eq_true _)

theorem Meets.symm {a b : Value} (meets : a.Meets b) : b.Meets a := by
  obtain ⟨sort, first, second⟩ := meets_iff.mp meets
  exact meets_iff.mpr ⟨sort, second, first⟩

theorem Meets.trans {a b c : Value} (first : a.Meets b) (second : b.Meets c) : a.Meets c := by
  obtain ⟨sort, isFirst, same⟩ := meets_iff.mp first
  obtain ⟨other, same', isSecond⟩ := meets_iff.mp second
  obtain rfl := Option.some.inj (same.symm.trans same')
  exact meets_iff.mpr ⟨sort, isFirst, isSecond⟩

theorem meets_self {key : Value} (isKey : key.isKey = true) : key.Meets key := by
  obtain ⟨sort, found⟩ := exists_keySort_iff.mpr isKey
  exact meets_iff.mpr ⟨sort, found, found⟩

/-- A value whose objects and sets have keys that are no collections, at every depth. -/
inductive Keyed : Value → Prop
  | single {value : Value} (isKey : value.isKey = true) : Keyed value
  | list {items : List Value} (each : ∀ item ∈ items, Keyed item) : Keyed (.list items)
  | pair {first second : Value} (isFirst : Keyed first) (isSecond : Keyed second) :
      Keyed (.pair first second)
  | set {items : List Value} (keys : ∀ item ∈ items, item.isKey = true) : Keyed (.set items)
  | object {entries : List (Value × Value)} (keys : ∀ entry ∈ entries, entry.1.isKey = true)
      (each : ∀ entry ∈ entries, Keyed entry.2) : Keyed (.object entries)
  | again (container : JsonContainer) : Keyed (.again container)

theorem keyed_object_iff {entries : List (Value × Value)} :
    Keyed (.object entries) ↔ ∀ entry ∈ entries, entry.1.isKey = true ∧ entry.2.Keyed := by
  constructor
  · intro keyed
    cases keyed with
    | single isKey => cases isKey
    | object keys each => exact fun entry member => ⟨keys entry member, each entry member⟩
  · exact fun each => .object (fun entry member => (each entry member).1)
      fun entry member => (each entry member).2

theorem IsJson.keyed {value : Value} (json : value.IsJson) : value.Keyed := by
  induction json with
  | list _ ih => exact .list ih
  | object _ _ ih =>
      refine keyed_object_iff.mpr fun entry member => ?_
      obtain ⟨own, among, rfl⟩ := List.mem_map.mp member
      exact ⟨rfl, ih own among⟩
  | _ => exact .single rfl

/-- An entry that is there after setting one was there before, or has the value that was set. -/
theorem mem_setEntry {key value : Value} {entries : List (Value × Value)} {entry : Value × Value}
    (member : entry ∈ setEntry key value entries) :
    (entry.1 = key ∨ ∃ old ∈ entries, entry.1 = old.1) ∧ (entry.2 = value ∨ entry ∈ entries) := by
  induction entries with
  | nil =>
      obtain rfl := List.mem_singleton.mp member
      exact ⟨.inl rfl, .inl rfl⟩
  | cons first rest ih =>
      obtain ⟨k, v⟩ := first
      rw [setEntry] at member
      split at member
      · rcases List.mem_cons.mp member with rfl | later
        · exact ⟨.inr ⟨_, List.mem_cons_self, rfl⟩, .inl rfl⟩
        · exact ⟨.inr ⟨_, List.mem_cons_of_mem _ later, rfl⟩, .inr (List.mem_cons_of_mem _ later)⟩
      · rcases List.mem_cons.mp member with rfl | later
        · exact ⟨.inr ⟨_, List.mem_cons_self, rfl⟩, .inr List.mem_cons_self⟩
        · obtain ⟨isKey, isValue⟩ := ih later
          refine ⟨isKey.imp_right ?_, isValue.imp_right (List.mem_cons_of_mem _)⟩
          rintro ⟨old, among, same⟩
          exact ⟨old, List.mem_cons_of_mem _ among, same⟩

theorem keyed_setEntry {key value : Value} {entries : List (Value × Value)}
    (before : Keyed (.object entries)) (isKey : key.isKey = true) (keyed : value.Keyed) :
    Keyed (.object (setEntry key value entries)) := by
  have each := keyed_object_iff.mp before
  refine keyed_object_iff.mpr fun entry member => ?_
  obtain ⟨fromKey, fromValue⟩ := mem_setEntry member
  constructor
  · rcases fromKey with same | ⟨old, among, same⟩
    · rwa [same]
    · rw [same]
      exact (each old among).1
  · rcases fromValue with same | among
    · rwa [same]
    · exact (each entry among).2

theorem keyed_of_found {name : String} {entries : List (Value × Value)} {value : Value}
    (keyed : Keyed (.object entries)) (entry : entry? name entries = some value) :
    value.Keyed := by
  obtain ⟨found, isEntry, rfl⟩ := Option.map_eq_some_iff.mp entry
  exact (keyed_object_iff.mp keyed found (List.mem_of_find?_eq_some isEntry)).2

end Value

end VersionRange
