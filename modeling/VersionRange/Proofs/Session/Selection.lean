import Mathlib.Data.List.Perm.Basic
import VersionRange.Proofs.Session.Refinement
import VersionRange.Proofs.Version.Highest

/-!
# Selecting versions

Once its range is found, filtering a list of versions and looking for the highest of them
asks nothing more of a session.  What is kept is what satisfies the range, and the highest
version is the first of the highest ones that are kept.  An item that is no version makes
both fail, wherever it stands.
-/

namespace VersionRange

open Fallible

namespace Session

/-- What is offered for a selection: versions that were built, and texts, with runs of
digits that are short enough. -/
inductive Offered : Value → Prop
  | version {v : Version} (constructed : v.Constructed) (short : ShortRuns v.chars) :
      Offered (.version v)
  | text {text : String} (short : ShortRuns text.toList) : Offered (.text text)

theorem Offered.legible {item : Value} (offered : Offered item) {v : Version}
    (coerced : versionOf item = .ok v) : v.Legible := by
  cases offered with
  | version constructed short =>
      cases coerced
      exact constructed.sound.legible short
  | text short => exact (Version.readable_of_parse coerced).legible

/-- Only a text is no version, and it is refused as one. -/
theorem Offered.fault {item : Value} (offered : Offered item) {fault : Fault}
    (refused : versionOf item = .error fault) : ∃ cause, fault = .version cause := by
  cases offered with
  | version constructed short => cases refused
  | @text text short =>
      by_cases tree : ∃ w, VersionGrammar.VersionText w text.toList
      · obtain ⟨w, whole⟩ := tree
        obtain ⟨v, read⟩ := Version.exists_parseChars whole short
        cases read.symm.trans refused
      · obtain ⟨cause, same⟩ := Version.refused_of_no_tree tree
        cases same.symm.trans refused
        exact ⟨cause, rfl⟩

/-- Whether the session finds that a value satisfies the range of an expression. -/
def accepts (session : Session) (world : World) (options : Option ParseOptions)
    (source : RangeSource) (item : Value) : Bool :=
  match ((satisfies world options item source).run.run session).1 with
  | .ok verdict => verdict
  | .error _ => false

section Runs

variable {session reached : Session} {world : World} {options : Option ParseOptions}
  {source : RangeSource} {range : Range}
  (found : (rangeOf world options source).run.run session = (.ok range, reached))

include found

theorem run_satisfies (item : Value) :
    (satisfies world options item source).run.run session =
      ((versionOf item).map range.includes, reached) := by
  rw [satisfies, run_bind_of_ok found]
  cases versionOf item <;> rfl

theorem run_filterSatisfying (items : List Value) :
    (filterSatisfying world options (.list items) source).run.run session =
      ((items.mapM versionOf).map (List.filter range.includes), reached) := by
  rw [filterSatisfying, run_bind_of_ok found]
  change (lift (items.mapM versionOf) >>= _).run.run reached = _
  cases items.mapM versionOf <;> rfl

theorem run_maxSatisfying (items : List Value) :
    (maxSatisfying world options (.list items) source).run.run session =
      (((items.mapM versionOf).map (List.filter range.includes)).map Version.highest?,
        reached) := by
  have filtered := run_filterSatisfying found items
  cases outcome : items.mapM versionOf with
  | ok candidates =>
      rw [outcome] at filtered
      exact run_bind_of_ok filtered _
  | error fault =>
      rw [outcome] at filtered
      exact run_bind_of_error filtered _

theorem accepts_of_versionOf {item : Value} {v : Version} (coerced : versionOf item = .ok v) :
    session.accepts world options source item = range.includes v := by
  rw [accepts, run_satisfies found, coerced]
  rfl

/-- What a filter keeps is what the session accepts one by one. -/
theorem mapM_filter_accepts {items : List Value} {candidates : List Version}
    (coerced : items.mapM versionOf = .ok candidates) :
    (items.filter (session.accepts world options source)).mapM versionOf =
      .ok (candidates.filter range.includes) := by
  rw [mapM_eq_ok_iff] at coerced ⊢
  induction coerced with
  | nil => exact .nil
  | @cons item v items candidates first others ih =>
      have same := accepts_of_versionOf found first
      cases verdict : range.includes v with
      | false => simpa [same, verdict] using ih
      | true => simpa [same, verdict] using ⟨first, ih⟩

end Runs

/-- What comes out of a selection: the items that are accepted, in their order, and the
first of the highest ones among them, if there are any. -/
structure Selects (accepted : Value → Bool) (items : List Value) (kept : List Version)
    (best : Option Version) : Prop where
  coerced : (items.filter accepted).mapM versionOf = .ok kept
  none_iff : best = none ↔ ∀ item ∈ items, accepted item = false
  first : ∀ m, best = some m → Version.FirstHighest kept m

theorem selects_of_coerced {accepted : Value → Bool} {items : List Value} {kept : List Version}
    (legible : ∀ v ∈ kept, v.Legible)
    (coerced : (items.filter accepted).mapM versionOf = .ok kept) :
    Selects accepted items kept (Version.highest? kept) := by
  refine ⟨coerced, ?_, fun m => Version.firstHighest_of_highest? legible⟩
  have sameLength := (mapM_eq_ok_iff.mp coerced).length_eq
  rw [Version.highest?_eq_none_iff, ← List.length_eq_zero_iff, ← sameLength,
    List.length_eq_zero_iff, List.filter_eq_nil_iff]
  simp

/-- Items in another order are coerced to the same versions in another order. -/
theorem exists_coerced_of_perm {items others : List Value} {candidates : List Version}
    (perm : others.Perm items) (coerced : items.mapM versionOf = .ok candidates) :
    ∃ shuffled, others.mapM versionOf = .ok shuffled ∧ shuffled.Perm candidates := by
  obtain ⟨shuffled, each, same⟩ := List.perm_comp_forall₂ perm (mapM_eq_ok_iff.mp coerced)
  exact ⟨shuffled, mapM_eq_ok_iff.mpr each, same⟩

/-- In a session that has the range of an expression, a selection among items that are all
versions keeps just those that satisfy the expression, in every session with this range, and
the highest ones of a permutation have one rank.  If some item is no version, then filtering
and looking for the highest both fail as the first such item does. -/
theorem selects_satisfying {session reached asking asked : Session} {world : World}
    {options : Option ParseOptions} {source : RangeSource} {range : Range}
    (found : (rangeOf world options source).run.run session = (.ok range, reached))
    (alike : (rangeOf world options source).run.run asking = (.ok range, asked))
    {items : List Value} (offered : ∀ item ∈ items, Offered item) :
    ((∀ item ∈ items, ∃ v, versionOf item = .ok v) →
        ∃ kept best,
          (filterSatisfying world options (.list items) source).run.run session =
              (.ok kept, reached) ∧
            (maxSatisfying world options (.list items) source).run.run session =
              (.ok best, reached) ∧
            Selects (asking.accepts world options source) items kept best ∧
            ∀ others, others.Perm items →
              ∃ other, (maxSatisfying world options (.list others) source).run.run session =
                  (.ok other, reached) ∧
                Option.Rel (fun a b : Version => a.compare b = .eq) best other) ∧
      ((∃ item ∈ items, ∀ v, versionOf item ≠ .ok v) →
        ∃ cause,
          Preceded (fun item => versionOf item = .error (.version cause))
              (fun item => ∃ v, versionOf item = .ok v) items ∧
            (filterSatisfying world options (.list items) source).run.run session =
              (.error (.version cause), reached) ∧
            (maxSatisfying world options (.list items) source).run.run session =
              (.error (.version cause), reached)) := by
  constructor
  · intro each
    obtain ⟨candidates, coerced⟩ := mapM_succeeds_iff.mpr each
    have legible : ∀ v ∈ candidates.filter range.includes, v.Legible := by
      intro v member
      obtain ⟨item, among, same⟩ := exists_item_of_mapM coerced (List.mem_filter.mp member).1
      exact (offered item among).legible same
    have filtered := run_filterSatisfying found items
    have best := run_maxSatisfying found items
    rw [coerced] at filtered best
    refine ⟨_, _, filtered, best,
      selects_of_coerced legible (mapM_filter_accepts alike coerced), fun others perm => ?_⟩
    obtain ⟨shuffled, othersCoerced, same⟩ := exists_coerced_of_perm perm coerced
    have otherBest := run_maxSatisfying found others
    rw [othersCoerced] at otherBest
    exact ⟨_, otherBest, Version.rel_highest?_of_perm legible (same.filter range.includes)⟩
  · rintro ⟨item, among, noVersion⟩
    cases outcome : items.mapM versionOf with
    | ok candidates =>
        obtain ⟨v, same⟩ := mapM_succeeds_iff.mp ⟨candidates, outcome⟩ item among
        exact absurd same (noVersion v)
    | error fault =>
        have first := mapM_eq_error_iff.mp outcome
        obtain ⟨before, bad, after, split, refused, -⟩ := id first
        obtain ⟨cause, rfl⟩ := (offered bad (by simp [split])).fault refused
        have filtered := run_filterSatisfying found items
        have best := run_maxSatisfying found items
        rw [outcome] at filtered best
        exact ⟨cause, first, filtered, best⟩

/-- Of two versions with one rank the first is the highest, a prerelease above them is not
kept, and a text that is no version makes the selection fail from the second place. -/
theorem selects_satisfying_of_builds :
    (∃ kept best, Selects (initial.accepts bare (some {}) (.written (.text "^1")))
        [.text "1.2.0-rc.1", .text "1.1.0+b", .version ⟨1, 1, 0, [], []⟩] kept (some best) ∧
          best.build = ["b"]) ∧
      ∃ cause, ((filterSatisfying bare (some {}) (.list [.text "1.0.0", .text "1.0"])
        (.written (.text "^1"))).run.run initial).1 = .error (.version cause) := by
  have found : (rangeOf bare (some {}) (.written (.text "^1"))).run.run initial =
      (.ok ⟨[Group.between {} (.release 1 0 0) (.release 2 0 0)]⟩,
        ((rangeOf bare (some {}) (.written (.text "^1"))).run.run initial).2) := rfl
  have short {text : List Char} (few : text.length ≤ digitLimit) := shortRuns_of_length_le few
  constructor
  · have offered : ∀ item ∈ [.text "1.2.0-rc.1", .text "1.1.0+b", .version ⟨1, 1, 0, [], []⟩],
        Offered item := by
      have constructed : Version.Constructed ⟨1, 1, 0, [], []⟩ :=
        ⟨.int 1, .int 1, .int 0, .list [], .list [], rfl⟩
      simpa using ⟨.text (short (by decide)), .text (short (by decide)),
        .version constructed (short (by decide))⟩
    have versions : ∀ item ∈ [.text "1.2.0-rc.1", .text "1.1.0+b", .version ⟨1, 1, 0, [], []⟩],
        ∃ v, versionOf item = .ok v := by
      simpa using ⟨⟨_, rfl⟩, ⟨_, rfl⟩, ⟨_, rfl⟩⟩
    obtain ⟨kept, best, -, top, selects, -⟩ := (selects_satisfying found found offered).1 versions
    have first : best = some ⟨1, 1, 0, [], ["b"]⟩ := by
      cases congrArg Prod.fst top
      rfl
    exact ⟨kept, _, first ▸ selects, rfl⟩
  · have offered : ∀ item ∈ [.text "1.0.0", .text "1.0"], Offered item := by
      simpa using ⟨.text (short (by decide)), .text (short (by decide))⟩
    have foreign (v : Version) : versionOf (.text "1.0") ≠ .ok v := by
      rintro ⟨⟩
    obtain ⟨cause, -, fails, -⟩ :=
      (selects_satisfying found found offered).2 ⟨_, List.mem_of_getLast? rfl, foreign⟩
    exact ⟨cause, congrArg Prod.fst fails⟩

end Session

end VersionRange
