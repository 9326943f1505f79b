import Mathlib.Data.List.TakeWhile
import VersionRange.Proofs.Version.Readable
import VersionRange.Version.Precedence

/-!
# Precedence without texts

Versions are compared through their written prereleases.  For readable versions
the outcome is that of an order on the numbers and identifiers themselves, which
is total up to the build.  What has to be shown is that writing loses nothing:
identifiers can be told apart in the text, and of two prereleases of which one
begins with the other the shorter list has the shorter text.
-/

namespace VersionRange

open Std

namespace Identifier

/-- Numbers by value, then words character by character. -/
def rank : Identifier → Identifier → Ordering
  | numeric m, numeric n => compare m n
  | numeric _, word _ => .lt
  | word _, numeric _ => .gt
  | word s, word t => compare s.toList t.toList

instance : TransCmp rank where
  eq_swap {i j} := by
    cases i <;> cases j
    · exact OrientedOrd.eq_swap
    · rfl
    · rfl
    · exact OrientedOrd.eq_swap
  isLE_trans {i j k} first second := by
    cases i <;> cases j <;> cases k <;> simp only [rank] at first second ⊢
    case numeric.numeric.numeric => exact TransCmp.isLE_trans first second
    case word.word.word => exact TransCmp.isLE_trans first second
    all_goals simp at first second ⊢

instance : LawfulEqCmp rank where
  eq_of_compare {i j} same := by
    cases i <;> cases j <;> simp only [rank, reduceCtorEq] at same
    · rw [LawfulEqCmp.eq_of_compare same]
    · rw [String.toList_inj.mp (LawfulEqCmp.eq_of_compare same)]

/-- Identifiers are told apart in the text. -/
theorem comparePieces_chars {i j : Identifier} (left : i.Readable) (right : j.Readable) :
    comparePieces i.chars j.chars = rank i j := by
  have numeral (n : Nat) :
      (!(numeralChars n).isEmpty && (numeralChars n).all Char.isDigit) = true := by
    simp [numeralChars_ne_nil, all_isDigit_numeralChars]
  cases i with
  | numeric m =>
      cases j with
      | numeric n => simp [comparePieces, chars, numeral, rank]
      | word t => simp [comparePieces, chars, numeral, right.2, rank]
  | word s =>
      cases j with
      | numeric n => simp [comparePieces, chars, numeral, left.2, rank]
      | word t => simp [comparePieces, chars, left.2, right.2, rank]

end Identifier

/-- The length of the identifiers with one more character behind each of them. -/
def lengthWithEnds : List Identifier → Nat
  | [] => 0
  | i :: rest => i.chars.length + 1 + lengthWithEnds rest

theorem length_dotted_chars {identifiers : List Identifier} (nonempty : identifiers ≠ []) :
    (dotted (identifiers.map Identifier.chars)).length + 1 = lengthWithEnds identifiers := by
  induction identifiers with
  | nil => exact absurd rfl nonempty
  | cons i rest ih =>
      cases rest with
      | nil => simp [dotted, lengthWithEnds]
      | cons next rest =>
          have split : dotted ((i :: next :: rest).map Identifier.chars) =
              i.chars ++ '.' :: dotted ((next :: rest).map Identifier.chars) := by
            simp [dotted, List.intercalate]
          have others := ih (by simp)
          rw [split, lengthWithEnds, ← others, List.length_append, List.length_cons]
          omega

theorem compare_add_left (k m n : Nat) : compare (k + m) (k + n) = compare m n := by
  simp only [Nat.compare_eq_ite_lt, Nat.add_lt_add_iff_left]

/-- Facing identifiers first and the length of the text last amounts to comparing
the lists of identifiers, a proper beginning being lower. -/
theorem compareFacing_then_length {as bs : List Identifier} (left : ∀ i ∈ as, i.Readable)
    (right : ∀ i ∈ bs, i.Readable) :
    (compareFacing (as.map Identifier.chars) (bs.map Identifier.chars)).then
        (compare (lengthWithEnds as) (lengthWithEnds bs)) =
      List.compareLex Identifier.rank as bs := by
  induction as generalizing bs with
  | nil =>
      cases bs with
      | nil => rfl
      | cons j bs =>
          rw [List.compareLex_nil_cons]
          exact Nat.compare_eq_lt.mpr (by simp only [lengthWithEnds]; omega)
  | cons i as ih =>
      cases bs with
      | nil =>
          rw [List.compareLex_cons_nil]
          exact Nat.compare_eq_gt.mpr (by simp only [lengthWithEnds]; omega)
      | cons j bs =>
          obtain ⟨iReadable, asReadable⟩ := List.forall_mem_cons.mp left
          obtain ⟨jReadable, bsReadable⟩ := List.forall_mem_cons.mp right
          rw [List.map_cons, List.map_cons, compareFacing, List.compareLex_cons_cons,
            Identifier.comparePieces_chars iReadable jReadable, ← ih asReadable bsReadable]
          cases outcome : Identifier.rank i j with
          | lt => rfl
          | gt => rfl
          | eq =>
              -- Equal identifiers are written alike and leave the difference of lengths as it is.
              obtain rfl := LawfulEqCmp.eq_of_compare outcome
              simp only [Ordering.then, lengthWithEnds, compare_add_left]

namespace Version

/-- The order on versions as numbers and identifiers: the three numbers, then a
release above its prereleases, then identifiers from left to right. -/
def rank (a b : Version) : Ordering :=
  (Ord.compare a.major b.major).then
    ((Ord.compare a.minor b.minor).then
      ((Ord.compare a.patch b.patch).then
        (match a.isPrerelease, b.isPrerelease with
          | false, false => .eq
          | false, true => .gt
          | true, false => .lt
          | true, true => List.compareLex Identifier.rank a.prerelease b.prerelease)))

/-- The same order, put together from orders on single parts. -/
theorem rank_eq_compareLex :
    rank = compareLex (compareOn major) (compareLex (compareOn minor) (compareLex (compareOn patch)
      (compareLex (compareOn fun v => !v.isPrerelease)
        fun a b => List.compareLex Identifier.rank a.prerelease b.prerelease))) := by
  funext a b
  simp only [rank, compareLex, compareOn]
  congr 3
  cases left : a.isPrerelease <;> cases right : b.isPrerelease
  · simp only [isPrerelease, Bool.not_eq_false', List.isEmpty_iff] at left right
    simp [left, right, List.compareLex_nil_nil]
  · rfl
  · rfl
  · rfl

instance : TransCmp fun a b : Version =>
    List.compareLex Identifier.rank a.prerelease b.prerelease where
  eq_swap := OrientedCmp.eq_swap
  isLE_trans := TransCmp.isLE_trans

instance : TransCmp rank := by
  rw [rank_eq_compareLex]
  infer_instance

theorem rank_eq_eq_iff {a b : Version} :
    a.rank b = .eq ↔ a.main = b.main ∧ a.prerelease = b.prerelease := by
  rw [rank_eq_compareLex]
  simp only [compareLex, compareOn, Ordering.then_eq_eq, LawfulEqCmp.compare_eq_iff_eq, main,
    Prod.mk.injEq, isPrerelease]
  constructor
  · rintro ⟨major, minor, patch, -, prerelease⟩
    exact ⟨⟨major, minor, patch⟩, prerelease⟩
  · rintro ⟨⟨major, minor, patch⟩, prerelease⟩
    exact ⟨major, minor, patch, by rw [prerelease], prerelease⟩

theorem rankedPrerelease_eq {v : Version} (readable : v.Readable) :
    v.rankedPrerelease = dotted (v.prerelease.map Identifier.chars) := by
  refine List.takeWhile_eq_self_iff.mpr fun c member => ?_
  have absent : '+' ∉ v.prereleaseChars := not_mem_dotted (by decide) (by decide)
    fun piece among => isBuildForm_of_isPrereleaseForm
      ((formed_written readable).prerelease piece among)
  have differs : c ≠ '+' := by
    rintro rfl
    exact absent member
  simpa using differs

theorem isEmpty_rankedPrerelease {v : Version} (readable : v.Readable) :
    v.rankedPrerelease.isEmpty = !v.isPrerelease := by
  rw [rankedPrerelease_eq readable]
  cases prerelease : v.prerelease with
  | nil => simp [isPrerelease, prerelease, dotted]
  | cons i rest =>
      have form := Identifier.isPrereleaseForm_chars (readable.prerelease i (by simp [prerelease]))
      have nonempty : i.chars ≠ [] := by
        have := isBuildForm_of_isPrereleaseForm form
        simp only [isBuildForm, Bool.and_eq_true] at this
        simpa using this.1
      have length : (dotted ((i :: rest).map Identifier.chars)).length + 1 =
          lengthWithEnds (i :: rest) := length_dotted_chars (by simp)
      have positive := List.length_pos_iff.mpr nonempty
      have : dotted ((i :: rest).map Identifier.chars) ≠ [] := by
        refine List.length_pos_iff.mp ?_
        rw [lengthWithEnds] at length
        omega
      simpa [isPrerelease, prerelease] using this

/-- Comparing the written prereleases is comparing the identifiers. -/
theorem comparePrereleaseTexts_eq {a b : Version} (left : a.Readable) (right : b.Readable) :
    comparePrereleaseTexts a.rankedPrerelease b.rankedPrerelease =
      match a.isPrerelease, b.isPrerelease with
      | false, false => .eq
      | false, true => .gt
      | true, false => .lt
      | true, true => List.compareLex Identifier.rank a.prerelease b.prerelease := by
  rw [comparePrereleaseTexts, isEmpty_rankedPrerelease left, isEmpty_rankedPrerelease right]
  cases aPrerelease : a.isPrerelease <;> cases bPrerelease : b.isPrerelease
  · rfl
  · rfl
  · rfl
  · have noDot {v : Version} (readable : v.Readable) :
        ∀ piece ∈ v.prerelease.map Identifier.chars, '.' ∉ piece := fun piece member =>
      WrittenVersion.dot_not_mem_of_isBuildForm
        (isBuildForm_of_isPrereleaseForm ((formed_written readable).prerelease piece member))
    have some {v : Version} (prerelease : v.isPrerelease = true) : v.prerelease ≠ [] := by
      simpa [isPrerelease] using prerelease
    have aSome := some aPrerelease
    have bSome := some bPrerelease
    simp only [Bool.not_true]
    rw [← compareFacing_then_length left.prerelease right.prerelease,
      ← length_dotted_chars aSome, ← length_dotted_chars bSome, rankedPrerelease_eq left,
      rankedPrerelease_eq right, splitOn_dotted (by simpa using aSome) (noDot left),
      splitOn_dotted (by simpa using bSome) (noDot right), Nat.add_comm _ 1, Nat.add_comm _ 1,
      compare_add_left]

/-- For readable versions the ranking through texts is the order without texts. -/
theorem compare_eq_rank {a b : Version} (left : a.Readable) (right : b.Readable) :
    a.compare b = a.rank b := by
  rw [compare, comparePrereleaseTexts_eq left right, rank]
  cases Ord.compare a.major b.major <;> cases Ord.compare a.minor b.minor <;> rfl

theorem isLE_rank_lowest (v : Version) : (lowest.rank v).isLE = true := by
  have number (n : Nat) : Ord.compare 0 n = .lt ∨ Ord.compare 0 n = .eq := by
    rcases Nat.eq_zero_or_pos n with rfl | positive
    · exact .inr rfl
    · exact .inl (Nat.compare_eq_lt.mpr positive)
  have atLeast {n : Nat} {other : Ordering} (later : other.isLE = true) :
      ((Ord.compare 0 n).then other).isLE = true := by
    rcases number n with lower | same
    · rw [lower]
      rfl
    · rw [same]
      exact later
  refine atLeast (atLeast (atLeast ?_))
  cases prerelease : v.prerelease with
  | nil => simp [isPrerelease, prerelease, lowest]
  | cons i rest =>
      simp only [isPrerelease, prerelease, lowest, List.isEmpty_cons, Bool.not_false,
        List.compareLex_cons_cons, Ordering.then]
      cases i with
      | word text => rfl
      | numeric n =>
          rcases number n with lower | sameNumber
          · simp [Identifier.rank, lower]
          · simp [Identifier.rank, sameNumber, List.isLE_compareLex_nil_left]

/-- Versions read from texts rank by their numbers and identifiers alone.  So the
ranking is total: it turns around with its arguments, it is transitive, only the
build can differ in versions of one rank, and no version is below the lowest. -/
theorem compare_total_up_to_build {aText bText cText : String} {a b c : Version}
    (aRead : parse aText = .ok a) (bRead : parse bText = .ok b) (cRead : parse cText = .ok c) :
    a.compare b = a.rank b ∧
      a.compare b = (b.compare a).swap ∧
      ((a.compare b).isLE = true → (b.compare c).isLE = true → (a.compare c).isLE = true) ∧
      (a.compare b = .eq ↔ a.main = b.main ∧ a.prerelease = b.prerelease) ∧
      (∀ aBuild bBuild, { a with build := aBuild }.compare { b with build := bBuild } =
        a.compare b) ∧
      (lowest.compare a).isLE = true := by
  have aReadable := readable_of_parse aRead
  have bReadable := readable_of_parse bRead
  have cReadable := readable_of_parse cRead
  rw [compare_eq_rank aReadable bReadable, compare_eq_rank bReadable aReadable,
    compare_eq_rank bReadable cReadable, compare_eq_rank aReadable cReadable,
    compare_eq_rank readable_lowest aReadable]
  refine ⟨rfl, OrientedCmp.eq_swap, TransCmp.isLE_trans, rank_eq_eq_iff, ?_, isLE_rank_lowest a⟩
  intro aBuild bBuild
  -- Neither the numbers nor the written prerelease look at the build.
  change a.compare b = a.rank b
  exact compare_eq_rank aReadable bReadable

/-- A longer prerelease, a word above a number, and a build that does not count. -/
theorem compare_total_up_to_build_of_prereleases :
    ∃ a b c : Version, parse "1.0.0-alpha+x" = .ok a ∧ parse "1.0.0-alpha.7" = .ok b ∧
      parse "1.0.0-alpha.beta" = .ok c ∧ a.compare b = .lt ∧ b.compare c = .lt ∧
      (a.compare c).isLE = true := by
  have aRead : parse "1.0.0-alpha+x" = .ok ⟨1, 0, 0, [.word "alpha"], ["x"]⟩ := rfl
  have bRead : parse "1.0.0-alpha.7" = .ok ⟨1, 0, 0, [.word "alpha", .numeric 7], []⟩ := rfl
  have cRead : parse "1.0.0-alpha.beta" = .ok ⟨1, 0, 0, [.word "alpha", .word "beta"], []⟩ := rfl
  obtain ⟨-, -, transitive, -⟩ := compare_total_up_to_build aRead bRead cRead
  exact ⟨_, _, _, aRead, bRead, cRead, rfl, rfl, transitive rfl rfl⟩

end Version

end VersionRange
