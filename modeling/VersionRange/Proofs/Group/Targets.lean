import VersionRange.Proofs.Group.Operands

/-!
# Where prerelease targets come from

Expansions make up bounds of their own: the first release that a partial version stands
for, the release with a raised number, and the lowest version, below which there is
nothing.  Only the last of them is a prerelease, so any other prerelease target of a group
is a full version that an item of the group has for an operand.
-/

namespace VersionRange

namespace PartialVersion

theorem eq_full_of_isPrerelease_first {p : PartialVersion}
    (prerelease : p.first.isPrerelease = true) : p = .full p.first := by
  cases p with
  | full v => rfl
  | any | major m | minor m n => cases prerelease

end PartialVersion

namespace Comparator

/-- A prerelease target is one of the versions `written`, unless the comparator asks for
versions below the lowest. -/
def Sourced (written : Version → Prop) : Comparator → Prop
  | any _ => True
  | exact op target _ =>
    target.isPrerelease = true → written target ∨ op = .less ∧ target = .lowest

theorem Sourced.mono {written other : Version → Prop} {c : Comparator}
    (sourced : c.Sourced written) (also : ∀ target, written target → other target) :
    c.Sourced other := by
  cases c with
  | any own => trivial
  | exact op target own => exact fun prerelease => (sourced prerelease).imp_left (also target)

end Comparator

namespace Group

variable {options : ParseOptions}

theorem isPrerelease_itemNext? {op : ItemOperator} {p : PartialVersion} {next : Version}
    (asked : next ∈ itemNext? op p) : next.isPrerelease = false := by
  cases op with
  | tilde => exact PartialVersion.isPrerelease_tildeNext? asked
  | caret => exact PartialVersion.isPrerelease_caretNext? asked
  | primitive op =>
      cases op with
      | less | greaterEqual => cases asked
      | lessEqual | greater | equal => exact PartialVersion.isPrerelease_next? asked

/-- The first version of an operand is a prerelease only if it is written there, and the
release with a raised number is none. -/
theorem Bounded.sourced {p : PartialVersion} {next? : Option Version} {c : Comparator}
    (bounded : Bounded options p.first next? c)
    (release : ∀ next ∈ next?, next.isPrerelease = false) :
    c.Sourced fun target => p = .full target := by
  cases bounded with
  | any => trivial
  | nothing => exact fun _ => .inr ⟨rfl, rfl⟩
  | first op =>
      exact fun prerelease => .inl (PartialVersion.eq_full_of_isPrerelease_first prerelease)
  | next op asked =>
      intro prerelease
      rw [release _ asked] at prerelease
      cases prerelease

/-- A full version that an item of the group has for an operand. -/
def WritesOut (group : List Char) (target : Version) : Prop :=
  ∃ item ∈ items group, ∃ operand ∈ item.operands, target.SpelledOut operand

theorem sourced_of_expand {item : Item} {found : List Comparator}
    (expands : item.expand options = .ok found) :
    ∀ c ∈ found, c.Sourced fun target => ∃ operand ∈ item.operands, target.SpelledOut operand := by
  intro c member
  rcases Item.expand_cases expands with
    ⟨token, p, rfl, read, -, rfl⟩ | ⟨lower, upper, low, high, rfl, lowRead, highRead, -, rfl⟩
  · have release (next : Version) (asked : next ∈ itemNext? (readOperator token).1 p) :=
      isPrerelease_itemNext? asked
    refine ((bounded_itemComparators c member).sourced release).mono ?_
    rintro target rfl
    exact ⟨_, List.mem_singleton_self _, PartialVersion.parseChars_eq_ok_full_iff.mp read⟩
  · rcases bounded_hyphenComparators c member with lowerBound | upperBound
    · refine (lowerBound.sourced (by simp)).mono ?_
      rintro target rfl
      exact ⟨lower, by simp [Item.operands], PartialVersion.parseChars_eq_ok_full_iff.mp lowRead⟩
    · refine (upperBound.sourced fun _ => PartialVersion.isPrerelease_next?).mono ?_
      rintro target rfl
      exact ⟨upper, by simp [Item.operands], PartialVersion.parseChars_eq_ok_full_iff.mp highRead⟩

theorem sourced_of_parse {group : List Char} {found : List Comparator}
    (read : parse options group = .ok found) : ∀ c ∈ found, c.Sourced (WritesOut group) := by
  by_cases blank : allBlank group = true
  · rw [parse_of_blank blank] at read
    cases read
    simp [Comparator.Sourced]
  · rw [parse_of_not_blank blank, Fallible.map_eq_ok_iff] at read
    obtain ⟨expansions, expands, rfl⟩ := read
    intro c member
    obtain ⟨expansion, among, inside⟩ := List.mem_flatten.mp member
    obtain ⟨item, itemAmong, expansionOf⟩ := Fallible.exists_item_of_mapM expands among
    exact (sourced_of_expand expansionOf c inside).mono fun _ written => ⟨item, itemAmong, written⟩

end Group

end VersionRange
