import VersionRange.Proofs.Partial
import VersionRange.Group

/-!
# What items expand to

An item expands to bounds that can be told in advance: the lowest version that its
operand stands for and, where the item has an upper bound, the lowest release above
those that it admits.  That release has one number raised by one, and the expansion
fails only if the raised number is too large to be written.
-/

namespace VersionRange

open Fallible

namespace PartialVersion

/-- The lowest version that a partial version stands for, a full version aside the
lowest release. -/
def first : PartialVersion → Version
  | any => .release 0 0 0
  | major m => .release m 0 0
  | minor m n => .release m n 0
  | full v => v

/-- The lowest release above all that a partial version with a missing number stands for. -/
def next? : PartialVersion → Option Version
  | any => none
  | major m => some (.release (m + 1) 0 0)
  | minor m n => some (.release m (n + 1) 0)
  | full _ => none

/-- The lowest release above all that a tilde admits. -/
def tildeNext? : PartialVersion → Option Version
  | full v => some (.release v.major (v.minor + 1) 0)
  | p => p.next?

/-- The lowest release above all that a caret admits. -/
def caretNext? : PartialVersion → Option Version
  | any => none
  | major m => some (.release (m + 1) 0 0)
  | minor m n => some (if m = 0 then .release 0 (n + 1) 0 else .release (m + 1) 0 0)
  | full v =>
    some (if v.major = 0 && v.minor = 0 then .release 0 0 (v.patch + 1)
      else if v.major = 0 then .release 0 (v.minor + 1) 0
      else .release (v.major + 1) 0 0)

theorem readable_first {p : PartialVersion} (readable : p.Readable) : p.first.Readable := by
  have zero : isWritableNumeral 0 = true := by decide
  cases p with
  | any => exact Version.readable_release zero zero zero
  | major m => exact Version.readable_release readable zero zero
  | minor m n => exact Version.readable_release readable.1 readable.2 zero
  | full v => exact readable

theorem isPrerelease_next? {p : PartialVersion} {next : Version} (asked : p.next? = some next) :
    next.isPrerelease = false := by
  cases p <;> cases asked <;> rfl

theorem isPrerelease_tildeNext? {p : PartialVersion} {next : Version}
    (asked : p.tildeNext? = some next) : next.isPrerelease = false := by
  cases p <;> cases asked <;> rfl

theorem isPrerelease_caretNext? {p : PartialVersion} {next : Version}
    (asked : p.caretNext? = some next) : next.isPrerelease = false := by
  cases p with
  | any => cases asked
  | major m =>
      cases asked
      rfl
  | minor m n =>
      cases asked
      split <;> rfl
  | full v =>
      cases asked
      split
      · rfl
      · split <;> rfl

end PartialVersion

theorem Version.releaseChecked_of_readable {major minor patch : Nat}
    (readable : (Version.release major minor patch).Readable) :
    Version.releaseChecked major minor patch = .ok (.release major minor patch) := by
  have majorWritable : isWritableNumeral major = true := readable.major
  have minorWritable : isWritableNumeral minor = true := readable.minor
  have patchWritable : isWritableNumeral patch = true := readable.patch
  simp [Version.releaseChecked_eq, majorWritable, minorWritable, patchWritable]

theorem Version.releaseChecked_of_not_readable {major minor patch : Nat}
    (unreadable : ¬(Version.release major minor patch).Readable) :
    Version.releaseChecked major minor patch = .error (.numeral .tooLargeToWrite) := by
  rw [Version.releaseChecked_eq, if_neg]
  intro writable
  simp only [Bool.and_eq_true] at writable
  exact unreadable (Version.readable_release writable.1.1 writable.1.2 writable.2)

namespace Comparator

/-- A comparator as parses make them: it carries their options, and its target, if it
has one, is readable. -/
def Stamped (options : ParseOptions) : Comparator → Prop
  | any own => own = options
  | exact _ target own => target.Readable ∧ own = options

theorem Stamped.options_eq {options : ParseOptions} {c : Comparator} (stamped : c.Stamped options) :
    c.options = options := by
  cases c with
  | any own => exact stamped
  | exact op target own => exact stamped.2

end Comparator

namespace Group

variable (options : ParseOptions)

/-- A primitive operator in front of all versions from `first` up to `next`, excluded. -/
def bounds (op : Operator) (first next : Version) : List Comparator :=
  match op with
  | .equal => between options first next
  | .greater => [.exact .greaterEqual next options]
  | .lessEqual => [.exact .less next options]
  | op => [.exact op first options]

/-- From `first` up to `next`, excluded, if there is a next version at all. -/
def confined (first : Version) : Option Version → List Comparator
  | none => [.any options]
  | some next => between options first next

/-- The comparators of a primitive operator in front of a partial version. -/
def primitiveComparators (op : Operator) (p : PartialVersion) : List Comparator :=
  match p, p.next? with
  | .full v, _ => [.exact op v options]
  | _, some next => bounds options op p.first next
  | _, none =>
    match op with
    | .less | .greater => [.exact .less .lowest options]
    | _ => [.any options]

/-- The comparators of an item that is no hyphen. -/
def itemComparators : ItemOperator → PartialVersion → List Comparator
  | .tilde, p => confined options p.first p.tildeNext?
  | .caret, p => confined options p.first p.caretNext?
  | .primitive op, p => primitiveComparators options op p

/-- The release with a raised number that the expansion of an item asks for. -/
def itemNext? : ItemOperator → PartialVersion → Option Version
  | .tilde, p => p.tildeNext?
  | .caret, p => p.caretNext?
  | .primitive .less, _ => none
  | .primitive .greaterEqual, _ => none
  | .primitive _, p => p.next?

/-- The bound in front of a hyphen, unless it is a wildcard. -/
def hyphenLower : PartialVersion → List Comparator
  | .any => []
  | lower => [.exact .greaterEqual lower.first options]

/-- The bound behind a hyphen, unless it is a wildcard. -/
def hyphenUpper (upper : PartialVersion) : List Comparator :=
  match upper, upper.next? with
  | .full v, _ => [.exact .lessEqual v options]
  | _, some next => [.exact .less next options]
  | _, none => []

def orAny (bounds : List Comparator) : List Comparator :=
  if bounds.isEmpty then [.any options] else bounds

/-- The comparators of a hyphen item. -/
def hyphenComparators (lower upper : PartialVersion) : List Comparator :=
  orAny options (hyphenLower options lower ++ hyphenUpper options upper)

/-- The two outcomes of an expansion that asks for a release with a raised number. -/
inductive Asking (next? : Option Version) (comparators : List Comparator) :
    Except Fault (List Comparator) → Prop
  | granted (readable : ∀ next ∈ next?, next.Readable) :
      Asking next? comparators (.ok comparators)
  | refused {next : Version} (asked : next ∈ next?) (unreadable : ¬next.Readable) :
      Asking next? comparators (.error (.numeral .tooLargeToWrite))

variable {options}

theorem Asking.eq_ok_iff {next? : Option Version} {comparators found : List Comparator}
    {outcome : Except Fault (List Comparator)} (asking : Asking next? comparators outcome) :
    outcome = .ok found ↔ (∀ next ∈ next?, next.Readable) ∧ comparators = found := by
  cases asking with
  | granted fits => simpa using fun _ => fits
  | refused asked unreadable =>
      refine iff_of_false (by simp) ?_
      rintro ⟨fits, -⟩
      exact unreadable (fits _ asked)

theorem asking_none {comparators : List Comparator} : Asking none comparators (.ok comparators) :=
  .granted (by simp)

theorem asking_release (major minor patch : Nat) (expand : Version → List Comparator) :
    Asking (some (.release major minor patch)) (expand (.release major minor patch))
      (Version.releaseChecked major minor patch >>= fun next => .ok (expand next)) := by
  by_cases readable : (Version.release major minor patch).Readable
  · rw [Version.releaseChecked_of_readable readable]
    exact .granted (by simpa using readable)
  · rw [Version.releaseChecked_of_not_readable readable]
    exact .refused rfl readable

theorem asking_expandPrimitive {op : Operator} {p : PartialVersion} (readable : p.Readable) :
    Asking (itemNext? (.primitive op) p) (primitiveComparators options op p)
      (expandPrimitive options op p) := by
  cases p with
  | any => cases op <;> exact asking_none
  | full v => cases op <;> exact asking_none
  | major m =>
      have first := Version.releaseChecked_of_readable (PartialVersion.readable_first readable)
      cases op with
      | less | greaterEqual =>
          simp only [expandPrimitive, first, ok_bind]
          exact asking_none
      | equal =>
          simp only [expandPrimitive, first, ok_bind]
          exact asking_release (m + 1) 0 0 (between options (.release m 0 0))
      | greater =>
          exact asking_release (m + 1) 0 0 fun next => [.exact .greaterEqual next options]
      | lessEqual => exact asking_release (m + 1) 0 0 fun next => [.exact .less next options]
  | minor m n =>
      have first := Version.releaseChecked_of_readable (PartialVersion.readable_first readable)
      cases op with
      | less | greaterEqual =>
          simp only [expandPrimitive, first, ok_bind]
          exact asking_none
      | equal =>
          simp only [expandPrimitive, first, ok_bind]
          exact asking_release m (n + 1) 0 (between options (.release m n 0))
      | greater =>
          exact asking_release m (n + 1) 0 fun next => [.exact .greaterEqual next options]
      | lessEqual => exact asking_release m (n + 1) 0 fun next => [.exact .less next options]

theorem asking_expandTilde {p : PartialVersion} (readable : p.Readable) :
    Asking p.tildeNext? (confined options p.first p.tildeNext?) (expandTilde options p) := by
  cases p with
  | any => exact asking_none
  | major m =>
      have first := Version.releaseChecked_of_readable (PartialVersion.readable_first readable)
      simp only [expandTilde, first, ok_bind]
      exact asking_release (m + 1) 0 0 (between options (.release m 0 0))
  | minor m n =>
      have first := Version.releaseChecked_of_readable (PartialVersion.readable_first readable)
      simp only [expandTilde, first, ok_bind]
      exact asking_release m (n + 1) 0 (between options (.release m n 0))
  | full v => exact asking_release v.major (v.minor + 1) 0 (between options v)

theorem asking_expandCaret {p : PartialVersion} (readable : p.Readable) :
    Asking p.caretNext? (confined options p.first p.caretNext?) (expandCaret options p) := by
  cases p with
  | any => exact asking_none
  | major m =>
      have first := Version.releaseChecked_of_readable (PartialVersion.readable_first readable)
      simp only [expandCaret, first, ok_bind]
      exact asking_release (m + 1) 0 0 (between options (.release m 0 0))
  | minor m n =>
      have first := Version.releaseChecked_of_readable (PartialVersion.readable_first readable)
      by_cases zero : m = 0
      · subst zero
        simp only [expandCaret, if_true, first, ok_bind]
        exact asking_release 0 (n + 1) 0 (between options (.release 0 n 0))
      · simp only [expandCaret, PartialVersion.caretNext?, if_neg zero, first, ok_bind]
        exact asking_release (m + 1) 0 0 (between options (.release m n 0))
  | full v =>
      simp only [expandCaret, PartialVersion.caretNext?]
      split
      · exact asking_release 0 0 (v.patch + 1) (between options v)
      · split
        · exact asking_release 0 (v.minor + 1) 0 (between options v)
        · exact asking_release (v.major + 1) 0 0 (between options v)

theorem asking_expandItem {op : ItemOperator} {p : PartialVersion} (readable : p.Readable) :
    Asking (itemNext? op p) (itemComparators options op p) (expandItem options op p) := by
  cases op with
  | primitive op => exact asking_expandPrimitive readable
  | tilde => exact asking_expandTilde readable
  | caret => exact asking_expandCaret readable

theorem lowerBound_eq {lower : PartialVersion} (readable : lower.Readable) :
    lowerBound options lower = .ok (hyphenLower options lower) := by
  have first := PartialVersion.readable_first readable
  cases lower with
  | any => rfl
  | major m =>
      rw [lowerBound, Version.releaseChecked_of_readable first]
      rfl
  | minor m n =>
      rw [lowerBound, Version.releaseChecked_of_readable first]
      rfl
  | full v => rfl

theorem asking_expandHyphen {lower upper : PartialVersion} (readable : lower.Readable) :
    Asking upper.next? (hyphenComparators options lower upper)
      (expandHyphen options lower upper) := by
  simp only [expandHyphen, lowerBound_eq readable, ok_bind]
  cases upper with
  | any => exact asking_none
  | major m =>
      simp only [upperBound, bind_assoc, pure_eq_ok, ok_bind]
      exact asking_release (m + 1) 0 0 fun next =>
        orAny options (hyphenLower options lower ++ [.exact .less next options])
  | minor m n =>
      simp only [upperBound, bind_assoc, pure_eq_ok, ok_bind]
      exact asking_release m (n + 1) 0 fun next =>
        orAny options (hyphenLower options lower ++ [.exact .less next options])
  | full v => exact asking_none

/-- What the comparators of an expansion are made with: the first version of an operand, a
release above it, or the lowest version, below which there is nothing. -/
inductive Bounded (options : ParseOptions) (first : Version) (next? : Option Version) :
    Comparator → Prop
  | any : Bounded options first next? (.any options)
  | nothing : Bounded options first next? (.exact .less .lowest options)
  | first (op : Operator) : Bounded options first next? (.exact op first options)
  | next (op : Operator) {next : Version} (asked : next ∈ next?) :
      Bounded options first next? (.exact op next options)

theorem Bounded.stamped {first : Version} {next? : Option Version} {c : Comparator}
    (bounded : Bounded options first next? c) (readable : first.Readable)
    (fits : ∀ next ∈ next?, next.Readable) : c.Stamped options := by
  cases bounded with
  | any => rfl
  | nothing => exact ⟨Version.readable_lowest, rfl⟩
  | first op => exact ⟨readable, rfl⟩
  | next op asked => exact ⟨fits _ asked, rfl⟩

theorem bounded_between {first next : Version} {next? : Option Version} (asked : next ∈ next?) :
    ∀ c ∈ between options first next, Bounded options first next? c := by
  intro c member
  simp only [between, List.mem_cons, List.not_mem_nil, or_false] at member
  rcases member with rfl | rfl
  · exact .first .greaterEqual
  · exact .next .less asked

theorem bounded_confined {first : Version} {next? : Option Version} :
    ∀ c ∈ confined options first next?, Bounded options first next? c := by
  cases next? with
  | none =>
      intro c member
      obtain rfl := List.mem_singleton.mp member
      exact .any
  | some next => exact bounded_between rfl

theorem primitiveComparators_of_next? {op : Operator} {p : PartialVersion} {next : Version}
    (asked : p.next? = some next) :
    primitiveComparators options op p = bounds options op p.first next := by
  cases p <;> cases asked <;> rfl

theorem tildeComparators_of_next? {p : PartialVersion} {next : Version}
    (asked : p.next? = some next) :
    itemComparators options .tilde p = between options p.first next := by
  cases p <;> cases asked <;> rfl

theorem bounded_primitiveComparators {op : Operator} {p : PartialVersion} :
    ∀ c ∈ primitiveComparators options op p,
      Bounded options p.first (itemNext? (.primitive op) p) c := by
  have single {d : Comparator} (bounded : Bounded options p.first (itemNext? (.primitive op) p) d) :
      ∀ c ∈ [d], Bounded options p.first (itemNext? (.primitive op) p) c := by
    simpa using bounded
  cases p with
  | any =>
      cases op with
      | less | greater => exact single .nothing
      | lessEqual | greaterEqual | equal => exact single .any
  | full v => exact single (.first op)
  | major m | minor m n =>
      cases op with
      | equal => exact bounded_between rfl
      | less => exact single (.first .less)
      | greaterEqual => exact single (.first .greaterEqual)
      | lessEqual => exact single (.next .less rfl)
      | greater => exact single (.next .greaterEqual rfl)

theorem bounded_itemComparators {op : ItemOperator} {p : PartialVersion} :
    ∀ c ∈ itemComparators options op p, Bounded options p.first (itemNext? op p) c := by
  cases op with
  | primitive op => exact bounded_primitiveComparators
  | tilde => exact bounded_confined
  | caret => exact bounded_confined

theorem itemComparators_ne_nil {op : ItemOperator} {p : PartialVersion} :
    itemComparators options op p ≠ [] := by
  have confinedNonempty {first : Version} {next? : Option Version} :
      confined options first next? ≠ [] := by
    cases next? <;> simp [confined, between]
  cases op with
  | primitive op => cases p <;> cases op <;>
      simp [itemComparators, primitiveComparators, PartialVersion.next?, bounds, between]
  | tilde => exact confinedNonempty
  | caret => exact confinedNonempty

theorem bounded_hyphenLower {lower : PartialVersion} :
    ∀ c ∈ hyphenLower options lower, Bounded options lower.first none c := by
  intro c member
  cases lower with
  | any => cases member
  | major m | minor m n | full v =>
      obtain rfl := List.mem_singleton.mp member
      exact .first .greaterEqual

theorem bounded_hyphenUpper {upper : PartialVersion} :
    ∀ c ∈ hyphenUpper options upper, Bounded options upper.first upper.next? c := by
  intro c member
  cases upper with
  | any => cases member
  | major m | minor m n =>
      obtain rfl := List.mem_singleton.mp member
      exact .next .less rfl
  | full v =>
      obtain rfl := List.mem_singleton.mp member
      exact .first .lessEqual

theorem bounded_hyphenComparators {lower upper : PartialVersion} :
    ∀ c ∈ hyphenComparators options lower upper,
      Bounded options lower.first none c ∨ Bounded options upper.first upper.next? c := by
  intro c member
  unfold hyphenComparators orAny at member
  split at member
  · obtain rfl := List.mem_singleton.mp member
    exact .inl .any
  · rcases List.mem_append.mp member with front | back
    · exact .inl (bounded_hyphenLower c front)
    · exact .inr (bounded_hyphenUpper c back)

theorem hyphenComparators_ne_nil {lower upper : PartialVersion} :
    hyphenComparators options lower upper ≠ [] := by
  unfold hyphenComparators orAny
  split
  · simp
  next nonempty => simpa using nonempty

end Group

end VersionRange
