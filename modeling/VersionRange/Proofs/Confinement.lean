import VersionRange.Proofs.Gate
import VersionRange.Proofs.OneItem
import VersionRange.Proofs.Partial.Standing

/-!
# What shorthands are confined to

The upper bound of a shorthand is a plain release.  The prereleases of this release rank
below it, so once prereleases are included they are admitted beside the versions that the
shorthand stands for; other versions are not.
-/

namespace VersionRange

namespace Range

/-- With prereleases included, a text admits only versions that are `inside`. -/
def Confines (text : String) (inside : Version → Prop) : Prop :=
  ∀ range, parse ⟨true⟩ text = .ok range → ∀ v, range.includes v = true → inside v

/-- The text is confined apart from the prereleases of one release, all of which it admits as
far as they can be written. -/
def ConfinesUpTo (text : String) (inside : Version → Prop) (bound : Nat × Nat × Nat) : Prop :=
  Confines text (fun v => inside v ∨ v.isPrerelease = true ∧ v.main = bound) ∧
    ∀ range, parse ⟨true⟩ text = .ok range → ∀ v : Version, v.Readable →
      v.isPrerelease = true → v.main = bound → range.includes v = true

theorem includes_iff_of_open {group : List Comparator}
    (gateless : ∀ c ∈ group, c.options = ⟨true⟩) {v : Version} :
    (Range.mk [group]).includes v = true ↔ ∀ c ∈ group, c.accepts v = true := by
  rw [includes_of_single rfl]
  exact groupIncludes_iff_of_included fun c member => by rw [gateless c member]

theorem includes_less_iff {bound v : Version} :
    (Range.mk [[.exact .less bound ⟨true⟩]]).includes v = true ↔ v.compare bound = .lt := by
  rw [includes_iff_of_open (by simp [Comparator.options])]
  simp [Comparator.accepts, Operator.test_iff]

theorem includes_between_iff {lower upper v : Version} :
    (Range.mk [Group.between ⟨true⟩ lower upper]).includes v = true ↔
      v.compare lower ≠ .lt ∧ v.compare upper = .lt := by
  rw [includes_iff_of_open (by simp [Group.between, Comparator.options])]
  simp [Group.between, Comparator.accepts, Operator.test_iff]

section Texts

variable {text : String} {inside : Version → Prop}

theorem confinesUpTo_of_less {bound : Version}
    (reads : ∀ range, parse ⟨true⟩ text = .ok range → range = ⟨[[.exact .less bound ⟨true⟩]]⟩)
    (release : bound.isPrerelease = false) (lower : ∀ v : Version, v.LowerMain bound → inside v) :
    ConfinesUpTo text inside bound.main := by
  constructor
  · intro range read v included
    rw [reads range read, includes_less_iff] at included
    exact (Version.lowerMain_or_prerelease_of_compare release included).imp_left (lower v)
  · intro range read v readable prerelease same
    rw [reads range read, includes_less_iff]
    exact Version.compare_lt_of_prerelease release readable prerelease same

theorem confinesUpTo_of_between {first next : Version}
    (reads : ∀ range, parse ⟨true⟩ text = .ok range → range = ⟨[Group.between ⟨true⟩ first next]⟩)
    (release : next.isPrerelease = false) (raised : first.LowerMain next)
    (within : ∀ v : Version, ¬v.LowerMain first → v.LowerMain next → inside v) :
    ConfinesUpTo text inside next.main := by
  constructor
  · intro range read v included
    rw [reads range read, includes_between_iff] at included
    obtain ⟨notBelow, below⟩ := included
    have atLeast : ¬v.LowerMain first :=
      fun lower => notBelow (Version.compare_eq_lt_iff.mpr (.inl lower))
    exact (Version.lowerMain_or_prerelease_of_compare release below).imp_left (within v atLeast)
  · intro range read v readable prerelease same
    rw [reads range read, includes_between_iff]
    exact ⟨Version.compare_ne_lt_of_main_eq raised same,
      Version.compare_lt_of_prerelease release readable prerelease same⟩

theorem ConfinesUpTo.mono {other : Version → Prop} {bound : Nat × Nat × Nat}
    (confined : ConfinesUpTo text inside bound) (wider : ∀ v, inside v → other v) :
    ConfinesUpTo text other bound :=
  ⟨fun range read v included => (confined.1 range read v included).imp_left (wider v), confined.2⟩

end Texts

section Leading

variable {symbol text : String} {op : ItemOperator} {w : PartialVersion.Written}
  {p : PartialVersion} {next : Version}

theorem eq_of_parse_leading (asked : p.next? = some next)
    (form : PartialVersion.Written.read? text.toList = some w)
    (leading : w.leading.map digitsValue = p.numbers)
    (known : (symbol, op) ∈ ItemOperator.symbols) {group : List Comparator}
    (expands : Group.itemComparators ⟨true⟩ op p = group) :
    ∀ range, parse ⟨true⟩ (symbol ++ text) = .ok range → range = ⟨[group]⟩ := by
  intro range read
  obtain ⟨q, operandRead, rfl⟩ := parse_item known form read
  rw [PartialVersion.eq_of_leading asked form leading operandRead, expands]

theorem confinesUpTo_equal (asked : p.next? = some next)
    (form : PartialVersion.Written.read? text.toList = some w)
    (leading : w.leading.map digitsValue = p.numbers)
    (known : (symbol, op) ∈ ItemOperator.symbols)
    (expands : Group.itemComparators ⟨true⟩ op p = Group.between ⟨true⟩ p.first next) :
    ConfinesUpTo (symbol ++ text) (fun v => p.standing v = .eq) next.main := by
  have reads := eq_of_parse_leading asked form leading known expands
  have release := PartialVersion.isPrerelease_next? asked
  have raised := PartialVersion.first_lowerMain_next asked
  refine confinesUpTo_of_between reads release raised fun v notLower below => ?_
  rw [PartialVersion.lowerMain_first_iff asked] at notLower
  rw [PartialVersion.lowerMain_next_iff asked] at below
  cases outcome : p.standing v with
  | lt => exact absurd outcome notLower
  | eq => rfl
  | gt => exact absurd outcome below

/-- The three ways to ask for the numbers themselves. -/
theorem confinesUpTo_exactly (asked : p.next? = some next)
    (form : PartialVersion.Written.read? text.toList = some w)
    (leading : w.leading.map digitsValue = p.numbers) :
    ∀ symbol ∈ ["", "=", "~"],
      ConfinesUpTo (symbol ++ text) (fun v => p.standing v = .eq) next.main := by
  have expands : Group.itemComparators ⟨true⟩ (.primitive .equal) p =
      Group.between ⟨true⟩ p.first next := Group.primitiveComparators_of_next? asked
  have tilde : ("~", ItemOperator.tilde) ∈ ItemOperator.symbols := by simp [ItemOperator.symbols]
  intro symbol member
  simp only [List.mem_cons, List.not_mem_nil, or_false] at member
  rcases member with rfl | rfl | rfl
  · exact confinesUpTo_equal asked form leading (ItemOperator.mem_symbols rfl) expands
  · exact confinesUpTo_equal asked form leading (ItemOperator.mem_symbols rfl) expands
  · exact confinesUpTo_equal asked form leading tilde (Group.tildeComparators_of_next? asked)

theorem confinesUpTo_less (asked : p.next? = some next)
    (form : PartialVersion.Written.read? text.toList = some w)
    (leading : w.leading.map digitsValue = p.numbers) :
    ConfinesUpTo ("<" ++ text) (fun v => p.standing v = .lt) p.first.main := by
  have known := ItemOperator.mem_symbols (rfl : Operator.ofSymbol? "<" = some .less)
  have expands : Group.itemComparators ⟨true⟩ (.primitive .less) p =
      [.exact .less p.first ⟨true⟩] := Group.primitiveComparators_of_next? asked
  refine confinesUpTo_of_less (eq_of_parse_leading asked form leading known expands) ?_ fun v => ?_
  · cases p <;> cases asked <;> rfl
  · exact (PartialVersion.lowerMain_first_iff asked v).mp

theorem confinesUpTo_lessEqual (asked : p.next? = some next)
    (form : PartialVersion.Written.read? text.toList = some w)
    (leading : w.leading.map digitsValue = p.numbers) :
    ConfinesUpTo ("<=" ++ text) (fun v => p.standing v ≠ .gt) next.main := by
  have known := ItemOperator.mem_symbols (rfl : Operator.ofSymbol? "<=" = some .lessEqual)
  have expands : Group.itemComparators ⟨true⟩ (.primitive .lessEqual) p =
      [.exact .less next ⟨true⟩] := Group.primitiveComparators_of_next? asked
  have release := PartialVersion.isPrerelease_next? asked
  refine confinesUpTo_of_less (eq_of_parse_leading asked form leading known expands) release ?_
  exact fun v => (PartialVersion.lowerMain_next_iff asked v).mp

end Leading

section Full

variable {symbol text : String} {op : ItemOperator} {target next : Version}

theorem confinesUpTo_full (spelled : target.SpelledOut text.toList)
    (known : (symbol, op) ∈ ItemOperator.symbols)
    (expands : Group.itemComparators ⟨true⟩ op (.full target) =
      Group.between ⟨true⟩ target next)
    (release : next.isPrerelease = false) (raised : target.LowerMain next)
    {inside : Version → Prop}
    (within : ∀ v : Version, ¬v.LowerMain target → v.LowerMain next → inside v) :
    ConfinesUpTo (symbol ++ text) inside next.main := by
  have whole := PartialVersion.parseChars_eq_ok_full_iff.mpr spelled
  obtain ⟨w, form⟩ := PartialVersion.exists_read?_of_parseChars whole
  refine confinesUpTo_of_between (fun range read => ?_) release raised within
  obtain ⟨q, operandRead, rfl⟩ := parse_item known form read
  rw [whole] at operandRead
  cases operandRead
  rw [expands]

theorem confinesUpTo_caret (spelled : target.SpelledOut text.toList) (positive : 0 < target.major) :
    ConfinesUpTo ("^" ++ text) (fun v => v.major = target.major) (target.major + 1, 0, 0) := by
  have known : ("^", ItemOperator.caret) ∈ ItemOperator.symbols := by simp [ItemOperator.symbols]
  have nonzero : target.major ≠ 0 := by omega
  have expands : Group.itemComparators ⟨true⟩ .caret (.full target) =
      Group.between ⟨true⟩ target (.release (target.major + 1) 0 0) := by
    simp [Group.itemComparators, PartialVersion.caretNext?, Group.confined, nonzero,
      PartialVersion.first]
  refine confinesUpTo_full spelled known expands rfl ?_ ?_
  · simp [Version.LowerMain, Version.release]
  · intro v notLower below
    simp only [Version.LowerMain, Version.release] at notLower below
    omega

theorem confinesUpTo_tilde (spelled : target.SpelledOut text.toList) :
    ConfinesUpTo ("~" ++ text) (fun v => v.major = target.major ∧ v.minor = target.minor)
      (target.major, target.minor + 1, 0) := by
  have known : ("~", ItemOperator.tilde) ∈ ItemOperator.symbols := by simp [ItemOperator.symbols]
  refine confinesUpTo_full spelled known rfl rfl ?_ ?_
  · simp [Version.LowerMain, Version.release]
  · intro v notLower below
    simp only [Version.LowerMain, Version.release] at notLower below
    omega

end Full

/-- With prereleases included, shorthands confine the numbers that they give, except that
they admit the prereleases of the release at their upper end. -/
theorem shorthands_confine_up_to_prereleases (text : String) :
    (∀ w m, PartialVersion.Written.read? text.toList = some w → w.leading.map digitsValue = [m] →
      (∀ symbol ∈ ["", "=", "~"],
        ConfinesUpTo (symbol ++ text) (fun v => v.major = m) (m + 1, 0, 0)) ∧
      ConfinesUpTo ("<" ++ text) (fun v => v.major < m) (m, 0, 0) ∧
      ConfinesUpTo ("<=" ++ text) (fun v => v.major ≤ m) (m + 1, 0, 0)) ∧
    (∀ w m n, PartialVersion.Written.read? text.toList = some w →
      w.leading.map digitsValue = [m, n] →
      (∀ symbol ∈ ["", "=", "~"],
        ConfinesUpTo (symbol ++ text) (fun v => v.major = m ∧ v.minor = n) (m, n + 1, 0)) ∧
      ConfinesUpTo ("<" ++ text) (fun v => v.major < m ∨ v.major = m ∧ v.minor < n) (m, n, 0) ∧
      ConfinesUpTo ("<=" ++ text) (fun v => v.major < m ∨ v.major = m ∧ v.minor ≤ n)
        (m, n + 1, 0)) ∧
    ∀ target : Version, target.SpelledOut text.toList →
      (0 < target.major →
        ConfinesUpTo ("^" ++ text) (fun v => v.major = target.major) (target.major + 1, 0, 0)) ∧
      ConfinesUpTo ("~" ++ text) (fun v => v.major = target.major ∧ v.minor = target.minor)
        (target.major, target.minor + 1, 0) := by
  refine ⟨fun w m form leading => ?_, fun w m n form leading => ?_, fun target spelled =>
    ⟨confinesUpTo_caret spelled, confinesUpTo_tilde spelled⟩⟩
  · have asked : (PartialVersion.major m).next? = some (.release (m + 1) 0 0) := rfl
    refine ⟨fun symbol member => ?_, ?_, ?_⟩
    · exact (confinesUpTo_exactly asked form leading symbol member).mono fun v => by simp
    · exact (confinesUpTo_less asked form leading).mono fun v => by simp [Nat.compare_eq_lt]
    · exact (confinesUpTo_lessEqual asked form leading).mono fun v => by
        simp [Nat.compare_eq_gt]
  · have asked : (PartialVersion.minor m n).next? = some (.release m (n + 1) 0) := rfl
    refine ⟨fun symbol member => ?_, ?_, ?_⟩
    · exact (confinesUpTo_exactly asked form leading symbol member).mono fun v => by simp
    · exact (confinesUpTo_less asked form leading).mono fun v => by
        simp [Ordering.then_eq_lt, Nat.compare_eq_lt]
    · exact (confinesUpTo_lessEqual asked form leading).mono fun v => by
        simp [Ordering.then_eq_gt, Nat.compare_eq_gt]
        omega

/-- A major number behind an operator, and a full version behind a caret. -/
theorem shorthands_confine_up_to_prereleases_of_majors :
    ConfinesUpTo ("<=" ++ "1.x") (fun v => v.major ≤ 1) (2, 0, 0) ∧
      ConfinesUpTo ("^" ++ "1.2.3") (fun v => v.major = 1) (2, 0, 0) := by
  constructor
  · have form : PartialVersion.Written.read? "1.x".toList =
        some ⟨.number ['1'], some .wildcard, none, []⟩ := rfl
    exact ((shorthands_confine_up_to_prereleases "1.x").1 _ 1 form rfl).2.2
  · have spelled : (Version.release 1 2 3).SpelledOut "1.2.3".toList :=
      PartialVersion.parseChars_eq_ok_full_iff.mp rfl
    exact ((shorthands_confine_up_to_prereleases "1.2.3").2.2 _ spelled).1 (by decide)

theorem not_confines_of_member {text : String} {inside : Version → Prop} {range : Range}
    {v : Version} (read : parse ⟨true⟩ text = .ok range) (included : range.includes v = true)
    (outside : ¬inside v) : ¬Confines text inside :=
  fun confines => outside (confines range read v included)

/-- None of the shorthands keeps the prereleases of its upper end out. -/
theorem not_confines_of_shorthands :
    ¬Confines "1" (fun v => v.major = 1) ∧ ¬Confines "~1" (fun v => v.major = 1) ∧
      ¬Confines "=1" (fun v => v.major = 1) ∧ ¬Confines "<1" (fun v => v.major < 1) ∧
      ¬Confines "<=1" (fun v => v.major ≤ 1) ∧ ¬Confines "^1.2.3" (fun v => v.major = 1) ∧
      ¬Confines "~1.2.3" (fun v => v.major = 1 ∧ v.minor = 2) := by
  refine ⟨?_, ?_, ?_, ?_, ?_, ?_, ?_⟩
  · exact not_confines_of_member (v := ⟨2, 0, 0, [.word "rc"], []⟩) rfl rfl (by decide)
  · exact not_confines_of_member (v := ⟨2, 0, 0, [.word "rc"], []⟩) rfl rfl (by decide)
  · exact not_confines_of_member (v := ⟨2, 0, 0, [.word "rc"], []⟩) rfl rfl (by decide)
  · exact not_confines_of_member (v := ⟨1, 0, 0, [.word "rc"], []⟩) rfl rfl (by decide)
  · exact not_confines_of_member (v := ⟨2, 0, 0, [.word "rc"], []⟩) rfl rfl (by decide)
  · exact not_confines_of_member (v := ⟨2, 0, 0, [.word "rc"], []⟩) rfl rfl (by decide)
  · exact not_confines_of_member (v := ⟨1, 3, 0, [.word "rc"], []⟩) rfl rfl (by decide)

end Range

end VersionRange
