import VersionRange.Proofs.Gate
import VersionRange.Proofs.OneItem

/-!
# The law of shorthands

A caret keeps the numbers of its operand up to the leftmost one that is not zero, and a
tilde keeps the first two.  From the operand on, releases are admitted as long as they keep
these numbers, and prereleases only beside an operand that is a prerelease of the same three
numbers.
-/

namespace VersionRange

namespace Version

/-- The release `next` is above `first`, and between the two are the versions that have the
kept numbers in front. -/
structure KeepsUpTo (first next : Version) (kept : List Nat) : Prop where
  release : next.isPrerelease = false
  raised : first.LowerMain next
  within : ∀ v : Version, ¬v.LowerMain first →
    (v.LowerMain next ↔ kept <+: [v.major, v.minor, v.patch])

variable (first : Version)

/-- Raising a number keeps this number and those in front of it. -/
theorem keepsUpTo_nextMajor :
    first.KeepsUpTo (.release (first.major + 1) 0 0) [first.major] where
  release := rfl
  raised := by simp [LowerMain, Version.release]
  within v notLower := by
    simp only [LowerMain, Version.release, List.cons_prefix_cons, List.nil_prefix,
      and_true] at notLower ⊢
    omega

theorem keepsUpTo_nextMinor :
    first.KeepsUpTo (.release first.major (first.minor + 1) 0) [first.major, first.minor] where
  release := rfl
  raised := by simp [LowerMain, Version.release]
  within v notLower := by
    simp only [LowerMain, Version.release, List.cons_prefix_cons, List.nil_prefix,
      and_true] at notLower ⊢
    omega

theorem keepsUpTo_nextPatch :
    first.KeepsUpTo (.release first.major first.minor (first.patch + 1))
      [first.major, first.minor, first.patch] where
  release := rfl
  raised := by simp [LowerMain, Version.release]
  within v notLower := by
    simp only [LowerMain, Version.release, List.cons_prefix_cons, List.nil_prefix,
      and_true] at notLower ⊢
    omega

end Version

namespace PartialVersion

/-- The numbers up to the leftmost one that is not zero, or all if there is none. -/
def caretKept (p : PartialVersion) : List Nat :=
  p.numbers.take ((p.numbers.takeWhile (· = 0)).length + 1)

def tildeKept (p : PartialVersion) : List Nat :=
  p.numbers.take 2

variable {p : PartialVersion}

theorem exists_caretNext (given : p.numbers ≠ []) :
    ∃ next, p.caretNext? = some next ∧ p.first.KeepsUpTo next p.caretKept := by
  cases p with
  | any => exact absurd rfl given
  | major m =>
      have kept : (major m).caretKept = [m] := by simp [caretKept, numbers]
      rw [kept]
      exact ⟨_, rfl, (major m).first.keepsUpTo_nextMajor⟩
  | minor m n =>
      rw [caretNext?]
      split
      next zero =>
        have kept : (minor m n).caretKept = [m, n] := by simp [caretKept, numbers, zero]
        rw [kept, zero]
        exact ⟨_, rfl, (minor 0 n).first.keepsUpTo_nextMinor⟩
      next nonzero =>
        have kept : (minor m n).caretKept = [m] := by simp [caretKept, numbers, nonzero]
        rw [kept]
        exact ⟨_, rfl, (minor m n).first.keepsUpTo_nextMajor⟩
  | full v =>
      obtain ⟨m, n, k, prerelease, build⟩ := v
      simp only [caretNext?, Bool.and_eq_true, decide_eq_true_eq]
      split
      next zeros =>
        obtain ⟨rfl, rfl⟩ := zeros
        have kept : (full ⟨0, 0, k, prerelease, build⟩).caretKept = [0, 0, k] := by
          simp [caretKept, numbers]
        rw [kept]
        exact ⟨_, rfl, Version.keepsUpTo_nextPatch ⟨0, 0, k, prerelease, build⟩⟩
      split
      next notBoth zero =>
        have nonzero : n ≠ 0 := fun minor => notBoth ⟨zero, minor⟩
        have kept : (full ⟨m, n, k, prerelease, build⟩).caretKept = [m, n] := by
          simp [caretKept, numbers, zero, nonzero]
        subst zero
        rw [kept]
        exact ⟨_, rfl, Version.keepsUpTo_nextMinor ⟨0, n, k, prerelease, build⟩⟩
      next nonzero =>
        have kept : (full ⟨m, n, k, prerelease, build⟩).caretKept = [m] := by
          simp [caretKept, numbers, nonzero]
        rw [kept]
        exact ⟨_, rfl, Version.keepsUpTo_nextMajor ⟨m, n, k, prerelease, build⟩⟩

theorem exists_tildeNext (given : p.numbers ≠ []) :
    ∃ next, p.tildeNext? = some next ∧ p.first.KeepsUpTo next p.tildeKept := by
  cases p with
  | any => exact absurd rfl given
  | major m => exact ⟨_, rfl, (major m).first.keepsUpTo_nextMajor⟩
  | minor m n => exact ⟨_, rfl, (minor m n).first.keepsUpTo_nextMinor⟩
  | full v => exact ⟨_, rfl, v.keepsUpTo_nextMinor⟩

end PartialVersion

namespace Range

/-- The range goes from the version `first` on.  It admits the releases that have the kept
numbers in front and, beside a prerelease `first`, the prereleases of its three numbers. -/
def Keeps (range : Range) (first : Version) (kept : List Nat) : Prop :=
  ∀ v : Version, range.includes v = true ↔
    v.compare first ≠ .lt ∧
      (v.isPrerelease = false ∧ kept <+: [v.major, v.minor, v.patch] ∨
        v.isPrerelease = true ∧ first.isPrerelease = true ∧ first.main = v.main)

section Bounds

variable {first next v : Version} {kept : List Nat}

theorem groupIncludes_between_iff (release : next.isPrerelease = false) :
    groupIncludes (Group.between {} first next) v = true ↔
      (v.compare first ≠ .lt ∧ v.compare next = .lt) ∧
        (v.isPrerelease = false ∨ first.isPrerelease = true ∧ first.main = v.main) := by
  rw [groupIncludes_iff, ← forall_accepts_iff, GateOpen, ← any_unlocks_iff]
  simp [Group.between, Comparator.accepts, Comparator.unlocks, Comparator.options,
    Operator.test_iff, release]

theorem keeps_of_between (bounded : first.KeepsUpTo next kept) :
    (Range.mk [Group.between {} first next]).Keeps first kept := by
  intro v
  rw [includes_of_single rfl, groupIncludes_between_iff bounded.release, and_assoc]
  refine and_congr_right fun atLeast => ?_
  cases prerelease : v.isPrerelease with
  | false =>
      have notLower : ¬v.LowerMain first := by
        rwa [ne_eq, Version.compare_eq_lt_iff_of_release prerelease] at atLeast
      rw [Version.compare_eq_lt_iff_of_release prerelease, bounded.within v notLower]
      simp
  | true =>
      -- A prerelease with the numbers of `first` is below `next` because of these numbers.
      have below (same : first.main = v.main) : v.compare next = .lt := by
        have raised := bounded.raised
        simp only [Version.main, Prod.mk.injEq] at same
        refine Version.compare_eq_lt_iff.mpr (.inl ?_)
        unfold Version.LowerMain at raised ⊢
        omega
      simp only [Bool.true_eq_false, false_or, false_and, true_and]
      exact ⟨fun admitted => admitted.2, fun unlocked => ⟨below unlocked.2, unlocked⟩⟩

/-- A first version that keeps its own numbers is admitted. -/
theorem Keeps.includes_first {range : Range} (keeps : range.Keeps first kept)
    (readable : first.Readable) (own : kept <+: [first.major, first.minor, first.patch]) :
    range.includes first = true := by
  have same : first.compare first = .eq := by
    rw [Version.compare_eq_rank readable readable, Version.rank_eq_eq_iff]
    exact ⟨rfl, rfl⟩
  refine (keeps first).mpr ⟨by simp [same], ?_⟩
  cases prerelease : first.isPrerelease with
  | false => exact .inl ⟨rfl, own⟩
  | true => exact .inr ⟨rfl, rfl, rfl⟩

end Bounds

theorem keeps_of_shorthand {symbol text : String} {op : ItemOperator}
    (known : (symbol, op) ∈ ItemOperator.symbols) {p : PartialVersion}
    (operandRead : PartialVersion.parseChars text.toList = .ok p) {range : Range}
    (read : parse {} (symbol ++ text) = .ok range) {next? : Option Version}
    (expands : Group.itemComparators {} op p = Group.confined {} p.first next?)
    {kept : List Nat} (bounded : ∃ next, next? = some next ∧ p.first.KeepsUpTo next kept) :
    range.Keeps p.first kept := by
  obtain ⟨w, form⟩ := PartialVersion.exists_read?_of_parseChars operandRead
  obtain ⟨q, again, rfl⟩ := parse_item known form read
  rw [operandRead] at again
  cases again
  obtain ⟨next, rfl, upTo⟩ := bounded
  rw [expands]
  exact keeps_of_between upTo

/-- With prereleases left out, a caret and a tilde go from their operand on and keep the
numbers that they stand for, and a full version is admitted by its own shorthands. -/
theorem shorthands_keep {text : String} {p : PartialVersion}
    (operandRead : PartialVersion.parseChars text.toList = .ok p) (given : p.numbers ≠ []) :
    (∀ range, parse {} ("^" ++ text) = .ok range → range.Keeps p.first p.caretKept) ∧
      (∀ symbol ∈ ["~", "~>"], ∀ range, parse {} (symbol ++ text) = .ok range →
        range.Keeps p.first p.tildeKept) ∧
      ∀ target, p = .full target → ∀ symbol ∈ ["^", "~", "~>"], ∀ range,
        parse {} (symbol ++ text) = .ok range → range.includes target = true := by
  have caretKnown : ("^", ItemOperator.caret) ∈ ItemOperator.symbols := by decide
  have tildeKnown : ∀ symbol ∈ ["~", "~>"],
      (symbol, ItemOperator.tilde) ∈ ItemOperator.symbols := by decide
  have caret (range : Range) (read : parse {} ("^" ++ text) = .ok range) :
      range.Keeps p.first p.caretKept :=
    keeps_of_shorthand caretKnown operandRead read rfl (PartialVersion.exists_caretNext given)
  have tilde (symbol : String) (member : symbol ∈ ["~", "~>"]) (range : Range)
      (read : parse {} (symbol ++ text) = .ok range) : range.Keeps p.first p.tildeKept :=
    keeps_of_shorthand (tildeKnown symbol member) operandRead read rfl
      (PartialVersion.exists_tildeNext given)
  refine ⟨caret, tilde, ?_⟩
  rintro target rfl symbol member range read
  have readable := PartialVersion.readable_of_parseChars operandRead
  rcases List.mem_cons.mp member with rfl | others
  · exact (caret range read).includes_first readable (List.take_prefix _ _)
  · exact (tilde symbol others range read).includes_first readable (List.take_prefix _ _)

/-- A caret in front of zeros, a release and a prerelease that it admits, and a tilde in front
of a prerelease. -/
theorem shorthands_keep_of_zeros :
    (∃ range, parse {} ("^" ++ "0.0") = .ok range ∧ range.includes (.release 0 0 7) = true ∧
      range.includes (.release 0 1 0) = false) ∧
    ∃ range, parse {} ("~>" ++ "v1.2.3-rc") = .ok range ∧
      range.includes ⟨1, 2, 3, [.word "rc"], []⟩ = true := by
  constructor
  · have operandRead : PartialVersion.parseChars "0.0".toList = .ok (.minor 0 0) := rfl
    have read : parse {} ("^" ++ "0.0") =
        .ok ⟨[Group.between {} (.release 0 0 0) (.release 0 1 0)]⟩ := rfl
    obtain ⟨caret, -, -⟩ := shorthands_keep operandRead (by decide)
    refine ⟨_, read, (caret _ read _).mpr (by decide), ?_⟩
    rw [← Bool.not_eq_true, caret _ read]
    decide
  · have operandRead : PartialVersion.parseChars "v1.2.3-rc".toList =
        .ok (.full ⟨1, 2, 3, [.word "rc"], []⟩) := rfl
    have read : parse {} ("~>" ++ "v1.2.3-rc") =
        .ok ⟨[Group.between {} ⟨1, 2, 3, [.word "rc"], []⟩ (.release 1 3 0)]⟩ := rfl
    obtain ⟨-, -, own⟩ := shorthands_keep operandRead (by decide)
    exact ⟨_, read, own _ rfl "~>" (by simp) _ read⟩

end Range

end VersionRange
