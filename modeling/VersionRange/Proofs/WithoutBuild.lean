import VersionRange.Proofs.Distinct
import VersionRange.Proofs.Group.Replacing
import VersionRange.Proofs.Simplification
import VersionRange.Proofs.Version.Highest

/-!
# Leaving out the build

A range admits versions by their numbers, by whether they are prereleases and by how they
rank, and none of these is told by a build.  So versions of the same rank are admitted alike,
and a range admits what it admits without the builds of its targets.  Neither an expansion nor
the two short cuts of simplification look at a build.
-/

namespace VersionRange

open Fallible

namespace Comparator

/-- The comparator with the build of its target left out. -/
def withoutBuild : Comparator → Comparator
  | any own => any own
  | exact op target own => exact op target.withoutBuild own

variable (c : Comparator)

@[simp]
theorem options_withoutBuild : c.withoutBuild.options = c.options := by
  cases c <;> rfl

@[simp]
theorem unlocks_withoutBuild (v : Version) : c.withoutBuild.unlocks v = c.unlocks v := by
  cases c <;> rfl

@[simp]
theorem accepts_withoutBuild (v : Version) : c.withoutBuild.accepts v = c.accepts v := by
  cases c with
  | any own => rfl
  | exact op target own =>
      have ranks : v.compare target.withoutBuild = v.compare target :=
        Version.compare_congr rfl rfl rfl rfl
      simp only [withoutBuild, accepts, ranks]

@[simp]
theorem isAllInclusive_withoutBuild : c.withoutBuild.isAllInclusive = c.isAllInclusive := by
  cases c <;> rfl

@[simp]
theorem isAllExclusive_withoutBuild : c.withoutBuild.isAllExclusive = c.isAllExclusive := by
  cases c with
  | any own => rfl
  | exact op target own =>
      have ranks : target.withoutBuild.compare .lowest = target.compare .lowest :=
        Version.compare_congr rfl rfl rfl rfl
      simp only [withoutBuild, isAllExclusive, Version.sameRank, ranks]

theorem interchangeable_withoutBuild (d : Comparator) :
    c.withoutBuild.interchangeable d.withoutBuild = c.interchangeable d := by
  cases c with
  | any own => cases d <;> rfl
  | exact op target own =>
      cases d with
      | any own' => rfl
      | exact op' other own' =>
          have ranks : target.withoutBuild.compare other.withoutBuild = target.compare other :=
            Version.compare_congr rfl rfl rfl rfl
          simp only [withoutBuild, interchangeable, Version.interchangeable, Version.sameRank,
            ranks, Version.withoutBuild_main, Version.withoutBuild_prerelease]

theorem includes_withoutBuild (v : Version) (siblings : List Comparator) :
    c.withoutBuild.includes v (siblings.map withoutBuild) = c.includes v siblings := by
  simp [includes, passesGate, List.any_map, Function.comp_def]

end Comparator

namespace Range

/-- What a range looks at in a candidate. -/
theorem includes_congr {v w : Version} (main : v.main = w.main)
    (isPrerelease : v.isPrerelease = w.isPrerelease)
    (ranks : ∀ target : Version, v.compare target = w.compare target) (range : Range) :
    range.includes v = range.includes w := by
  have unlocks (c : Comparator) : c.unlocks v = c.unlocks w := by
    cases c <;> simp [Comparator.unlocks, main]
  have accepts (c : Comparator) : c.accepts v = c.accepts w := by
    cases c <;> simp [Comparator.accepts, ranks]
  simp only [includes, groupIncludes, Comparator.includes, Comparator.passesGate, isPrerelease,
    unlocks, accepts]

theorem includes_eq_of_compare_eq {v w : Version} (vLegible : v.Legible) (wLegible : w.Legible)
    (same : v.compare w = .eq) (range : Range) : range.includes v = range.includes w := by
  obtain ⟨twin, twinReadable, twinChars⟩ := vLegible
  obtain ⟨other, otherReadable, otherChars⟩ := wLegible
  rw [← Version.compare_eq_of_chars twinChars otherChars,
    Version.compare_eq_rank twinReadable otherReadable, Version.rank_eq_eq_iff] at same
  obtain ⟨main, prerelease⟩ := same
  have kind : twin.isPrerelease = other.isPrerelease := by
    rw [Version.isPrerelease, Version.isPrerelease, prerelease]
  refine includes_congr ?_ ?_ (fun target => ?_) range
  · rw [← Version.main_eq_of_chars twinChars, main, Version.main_eq_of_chars otherChars]
  · rw [← Version.isPrerelease_eq_of_chars twinChars, kind,
      Version.isPrerelease_eq_of_chars otherChars]
  · rw [← Version.compare_eq_of_chars twinChars (rfl : target.chars = target.chars),
      ← Version.compare_eq_of_chars otherChars (rfl : target.chars = target.chars)]
    exact Version.compare_congr main prerelease rfl rfl

/-- The range with the builds of all targets left out. -/
def withoutBuild (range : Range) : Range :=
  ⟨range.groups.map (List.map Comparator.withoutBuild)⟩

@[simp]
theorem includes_withoutBuild (range : Range) (v : Version) :
    range.withoutBuild.includes v = range.includes v := by
  simp [includes, groupIncludes, withoutBuild, List.any_map, List.all_map, Function.comp_def,
    Comparator.includes_withoutBuild]

theorem distinctBy_withoutBuild (group : List Comparator) :
    distinctBy Comparator.interchangeable (group.map Comparator.withoutBuild) =
      (distinctBy Comparator.interchangeable group).map Comparator.withoutBuild :=
  distinctBy_map fun c _ d _ => c.interchangeable_withoutBuild d

theorem simplify_withoutBuild {groups others : List (List Comparator)} {range : Range}
    {record : Option JournalRecord}
    (same : others.map (List.map Comparator.withoutBuild) =
      groups.map (List.map Comparator.withoutBuild))
    (simplified : simplify groups = .ok (range, record)) :
    ∃ other record', simplify others = .ok (other, record') ∧
      other.withoutBuild = range.withoutBuild := by
  have blind (groups : List (List Comparator)) :=
    simplify_map groups Comparator.isAllInclusive_withoutBuild
      Comparator.isAllExclusive_withoutBuild
  have outcome : ((simplify others).map Prod.fst).map withoutBuild = .ok range.withoutBuild := by
    refine (blind others).symm.trans ?_
    rw [same, blind groups, simplified]
    rfl
  obtain ⟨other, simplifiedOther, sameRange⟩ := map_eq_ok_iff.mp outcome
  obtain ⟨⟨_, record'⟩, whole, rfl⟩ := map_eq_ok_iff.mp simplifiedOther
  exact ⟨_, record', whole, sameRange⟩

end Range

namespace PartialVersion

/-- The partial version with the build left out, if there is one. -/
def withoutBuild : PartialVersion → PartialVersion
  | full v => full v.withoutBuild
  | p => p

@[simp]
theorem next?_withoutBuild (p : PartialVersion) : p.withoutBuild.next? = p.next? := by
  cases p <;> rfl

end PartialVersion

namespace Group

section Expansions

variable (options : ParseOptions) (op : ItemOperator) (p q : PartialVersion)

@[simp]
theorem itemNext?_withoutBuild : itemNext? op p.withoutBuild = itemNext? op p := by
  cases p with
  | full v =>
      cases op with
      | primitive op => cases op <;> rfl
      | tilde | caret => rfl
  | any | major m | minor m n => rfl

theorem confined_withoutBuild (first : Version) {next? : Option Version}
    (bare : ∀ next ∈ next?, next.withoutBuild = next) :
    confined options first.withoutBuild next? =
      (confined options first next?).map Comparator.withoutBuild := by
  cases next? with
  | none => rfl
  | some next =>
      have same : next.withoutBuild = next := bare next rfl
      simp [confined, between, Comparator.withoutBuild, same]

theorem itemComparators_withoutBuild : itemComparators options op p.withoutBuild =
    (itemComparators options op p).map Comparator.withoutBuild := by
  have first : p.withoutBuild.first = p.first.withoutBuild := by
    cases p <;> rfl
  cases op with
  | primitive op =>
      cases p with
      | full v => rfl
      | any | major m | minor m n => cases op <;> rfl
  | tilde =>
      have next : p.withoutBuild.tildeNext? = p.tildeNext? := itemNext?_withoutBuild .tilde p
      simp only [itemComparators, first, next]
      refine confined_withoutBuild options p.first fun next asked => ?_
      cases p <;> cases asked <;> rfl
  | caret =>
      have next : p.withoutBuild.caretNext? = p.caretNext? := itemNext?_withoutBuild .caret p
      simp only [itemComparators, first, next]
      refine confined_withoutBuild options p.first fun next asked => ?_
      cases p with
      | any => cases asked
      | major m =>
          cases asked
          rfl
      | minor m n =>
          cases asked
          split <;> rfl
      | full v =>
          cases asked
          split
          · rfl
          · split <;> rfl

theorem hyphenComparators_withoutBuild :
    hyphenComparators options p.withoutBuild q.withoutBuild =
      (hyphenComparators options p q).map Comparator.withoutBuild := by
  cases p <;> cases q <;> rfl

variable {options p q} in
/-- Partial versions that differ in the build at most expand alike. -/
theorem alike_of_withoutBuild (readable : p.Readable) (otherReadable : q.Readable)
    (same : q.withoutBuild = p.withoutBuild) :
    Alike options Comparator.withoutBuild p q where
  item op found expands := by
    obtain ⟨fits, rfl⟩ := (asking_expandItem readable).eq_ok_iff.mp expands
    rw [← itemNext?_withoutBuild, ← same, itemNext?_withoutBuild] at fits
    refine ⟨_, (asking_expandItem otherReadable).eq_ok_iff.mpr ⟨fits, rfl⟩, ?_⟩
    rw [← itemComparators_withoutBuild, same, itemComparators_withoutBuild]
  lower upper found expands := by
    obtain ⟨fits, rfl⟩ := (asking_expandHyphen readable).eq_ok_iff.mp expands
    refine ⟨_, (asking_expandHyphen otherReadable).eq_ok_iff.mpr ⟨fits, rfl⟩, ?_⟩
    rw [← hyphenComparators_withoutBuild, same, hyphenComparators_withoutBuild]
  upper lowerReadable found expands := by
    obtain ⟨fits, rfl⟩ := (asking_expandHyphen lowerReadable).eq_ok_iff.mp expands
    rw [← p.next?_withoutBuild, ← same, q.next?_withoutBuild] at fits
    refine ⟨_, (asking_expandHyphen lowerReadable).eq_ok_iff.mpr ⟨fits, rfl⟩, ?_⟩
    rw [← hyphenComparators_withoutBuild, same, hyphenComparators_withoutBuild]

end Expansions

end Group

end VersionRange
