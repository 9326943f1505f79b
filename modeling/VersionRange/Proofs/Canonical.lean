import VersionRange.Proofs.Group.Written
import VersionRange.Proofs.Parts
import VersionRange.Proofs.Simplification
import VersionRange.Proofs.Version.Rank

/-!
# Canonical texts

A range that was read is in normal form: no group repeats a comparator, and either the
range has come down to one comparator or simplification leaves it alone.  Its text is
canonical: reading the text of a range in normal form gives the range back.
-/

namespace VersionRange

open Fallible

namespace Comparator

/-- Comparators that are equal count as one where duplicates are dropped. -/
theorem sameAs_eq_interchangeable {options : ParseOptions} {c d : Comparator}
    (left : c.Stamped options) (right : d.Stamped options) : c.sameAs d = c.interchangeable d := by
  cases c with
  | any own => cases d <;> rfl
  | exact op v own =>
      cases d with
      | any other => rfl
      | exact op' w other =>
          have agree (same : v.sameRank w = true) :
              v.main = w.main ∧ v.prerelease = w.prerelease := by
            rw [Version.sameRank, Version.compare_eq_rank left.1 right.1, beq_iff_eq] at same
            exact Version.rank_eq_eq_iff.mp same
          cases same : v.sameRank w with
          | false => simp [sameAs, interchangeable, Version.interchangeable, same]
          | true =>
              obtain ⟨main, prerelease⟩ := agree same
              simp [sameAs, interchangeable, Version.interchangeable, same, main, prerelease]

end Comparator

namespace Range

/-- The form of the ranges that are read with the given options. -/
structure Normal (options : ParseOptions) (range : Range) : Prop where
  nonempty : range.groups ≠ []
  groups : ∀ group ∈ range.groups, group ≠ []
  distinct : ∀ group ∈ range.groups, group.Pairwise fun c d => c.sameAs d = false
  stamped : ∀ group ∈ range.groups, ∀ c ∈ group, c.options = options
  simple : (∃ c, range.groups = [[c]] ∧ (c.isAllInclusive = true ∨ c.isAllExclusive = true)) ∨
    Irreducible range.groups

variable {options : ParseOptions}

theorem stamped_of_parse {text : String} {range : Range} (read : parse options text = .ok range) :
    ∀ group ∈ range.groups, ∀ c ∈ group, c.Stamped options := by
  intro group member c inside
  obtain ⟨found, ⟨part, -, groupRead⟩, among⟩ := exists_hasGroup_of_parse read member inside
  exact Group.stamped_of_parse groupRead c among

theorem normal_single {c : Comparator} (stamped : c.options = options)
    (degenerate : c.isAllInclusive = true ∨ c.isAllExclusive = true) :
    Normal options ⟨[[c]]⟩ where
  nonempty := by simp
  groups := by simp
  distinct := by simp
  stamped := by simpa using stamped
  simple := .inl ⟨c, rfl, degenerate⟩

theorem pairwise_of_parseGroups {parts : List (List Char)} {groups : List (List Comparator)}
    (read : parseGroups options parts = .ok groups) {group : List Comparator}
    (member : group ∈ groups) : group.Pairwise fun c d => c.sameAs d = false := by
  have stamped := stamped_of_parseGroups read member
  obtain ⟨part, -, found, -, rfl⟩ := exists_part_of_parseGroups read member
  refine (pairwise_distinctBy found).imp_of_mem fun left right apart => ?_
  rw [Comparator.sameAs_eq_interchangeable (stamped _ left) (stamped _ right), apart]

theorem normal_of_parse {text : String} {range : Range} (read : parse options text = .ok range) :
    range.Normal options := by
  have stamped := stamped_of_parse read
  obtain ⟨groups, record, groupsRead, simplified⟩ := parse_eq_ok_iff.mp read
  obtain ⟨found⟩ := range
  rcases simplify_cases simplified with ⟨c, -, degenerate, single⟩ | ⟨same, irreducible⟩
  · change found = [[c]] at single
    subst single
    exact normal_single (stamped [c] (by simp) c (by simp)).options_eq degenerate
  · change found = groups at same
    subst same
    have sameLength := (parseGroups_eq_ok_iff.mp groupsRead).length_eq
    refine ⟨?_, fun group member => ?_, fun group => pairwise_of_parseGroups groupsRead,
      fun group member c inside => (stamped group member c inside).options_eq, .inr irreducible⟩
    · rintro rfl
      exact splitGroups_ne_nil _ (List.eq_nil_of_length_eq_zero sameLength)
    · obtain ⟨⟨c, inside, -⟩, -⟩ := irreducible group member
      exact List.ne_nil_of_mem inside

theorem bar_not_mem_groupText {group : List Comparator} (stamped : ∀ c ∈ group, c.Stamped options) :
    '|' ∉ (groupText group).toList := by
  intro member
  rw [groupText, String.toList_intercalate] at member
  rcases mem_intercalate member with space | ⟨text, among, inside⟩
  · simp at space
  · simp only [List.map_map, List.mem_map, Function.comp_apply] at among
    obtain ⟨c, inGroup, rfl⟩ := among
    exact Comparator.bar_not_mem_text (stamped c inGroup) inside

/-- A group of a range in normal form, whatever the other groups are. -/
structure NormalGroup (options : ParseOptions) (group : List Comparator) : Prop where
  nonempty : group ≠ []
  stamped : ∀ c ∈ group, c.Stamped options
  apart : group.Pairwise fun c d => c.interchangeable d = false

section Padded

variable {group : List Comparator} {front back : List Char}

theorem NormalGroup.read (normal : NormalGroup options group) (frontBlank : allBlank front = true)
    (backBlank : allBlank back = true) :
    (Group.parse options (front ++ (groupText group).toList ++ back)).map
      (distinctBy Comparator.interchangeable) = .ok group := by
  rw [Group.parse_groupText normal.nonempty normal.stamped frontBlank backBlank]
  exact congrArg Except.ok (distinctBy_eq_self normal.apart)

theorem NormalGroup.not_blank (normal : NormalGroup options group)
    (frontBlank : allBlank front = true) (backBlank : allBlank back = true) :
    allBlank (front ++ (groupText group).toList ++ back) = false :=
  Bool.eq_false_iff.mpr
    (Group.not_blank_groupText normal.nonempty normal.stamped frontBlank backBlank)

theorem NormalGroup.bar_not_mem (normal : NormalGroup options group) (frontBar : '|' ∉ front)
    (backBar : '|' ∉ back) : '|' ∉ front ++ (groupText group).toList ++ back := by
  simp [frontBar, backBar, bar_not_mem_groupText normal.stamped]

end Padded

/-- Written groups are read back one by one; the blank that follows a double bar goes to
the front of the next part. -/
theorem parseGroups_text {groups : List (List Comparator)} (nonempty : groups ≠ [])
    (each : ∀ group ∈ groups, NormalGroup options group) {front : List Char}
    (frontBlank : allBlank front = true) (frontBar : '|' ∉ front) :
    parseGroups options (splitGroups (front ++ (text ⟨groups⟩).toList)) = .ok groups ∧
      (splitGroups (front ++ (text ⟨groups⟩).toList)).all allBlank = false := by
  induction groups generalizing front with
  | nil => exact absurd rfl nonempty
  | cons group rest ih =>
      obtain ⟨normal, others⟩ := List.forall_mem_cons.mp each
      cases rest with
      | nil =>
          have empty : allBlank [] = true := rfl
          have whole : front ++ (text ⟨[group]⟩).toList =
              front ++ (groupText group).toList ++ [] := by
            simp [text]
          rw [whole, splitGroups_of_no_bar (normal.bar_not_mem frontBar (by simp))]
          constructor
          · rw [parseGroups, List.mapM_cons, normal.read frontBlank empty]
            rfl
          · rw [List.all_cons, normal.not_blank frontBlank empty, Bool.false_and]
      | cons next rest =>
          have space : allBlank [' '] = true := by decide
          have whole : front ++ (text ⟨group :: next :: rest⟩).toList =
              front ++ (groupText group).toList ++ [' '] ++
                '|' :: '|' :: ([' '] ++ (text ⟨next :: rest⟩).toList) := by
            simp [text, String.toList_intercalate]
          rw [whole, splitGroups_append_bars (normal.bar_not_mem frontBar (by decide))]
          constructor
          · have later := (ih (by simp) others space (by decide)).1
            rw [parseGroups] at later ⊢
            rw [List.mapM_cons, normal.read frontBlank space, ok_bind, later]
            rfl
          · rw [List.all_cons, normal.not_blank frontBlank space, Bool.false_and]

theorem normalGroup_of_normal {range : Range} (normal : range.Normal options)
    (stamped : ∀ group ∈ range.groups, ∀ c ∈ group, c.Stamped options) :
    ∀ group ∈ range.groups, NormalGroup options group := by
  intro group member
  refine ⟨normal.groups group member, stamped group member, ?_⟩
  refine (normal.distinct group member).imp_of_mem fun left right apart => ?_
  rw [← Comparator.sameAs_eq_interchangeable (stamped group member _ left)
    (stamped group member _ right), apart]

theorem parse_text_of_normal {range : Range} (normal : range.Normal options)
    (stamped : ∀ group ∈ range.groups, ∀ c ∈ group, c.Stamped options) :
    parse options range.text = .ok range := by
  obtain ⟨groups⟩ := range
  obtain ⟨read, notBlank⟩ := parseGroups_text normal.nonempty (normalGroup_of_normal normal stamped)
    (show allBlank [] = true from rfl) (by simp)
  rw [List.nil_append] at read notBlank
  have simplified : ∃ record, simplify groups = .ok (⟨groups⟩, record) := by
    rcases normal.simple with ⟨c, single, -⟩ | irreducible
    · change groups = [[c]] at single
      subst single
      exact simplify_single c
    · exact ⟨none, simplify_of_irreducible irreducible⟩
  obtain ⟨record, simplified⟩ := simplified
  rw [parse_of_not_blank (by simp [notBlank]), read, ok_bind, simplified]
  rfl

/-- A range that was read is in normal form and is read back from its text, builds
included, and each comparator of it alone from the comparator's text. -/
theorem parse_canonical {text : String} {range : Range} (read : parse options text = .ok range) :
    range.Normal options ∧ parse options range.text = .ok range ∧
      ∀ group ∈ range.groups, ∀ c ∈ group, Group.parse options c.text.toList = .ok [c] := by
  have normal := normal_of_parse read
  have stamped := stamped_of_parse read
  refine ⟨normal, parse_text_of_normal normal stamped, fun group member c inside => ?_⟩
  have whole : c.text.toList = [] ++ (groupText [c]).toList ++ [] := by simp [groupText]
  rw [whole]
  exact Group.parse_groupText (by simp) (by simpa using stamped group member c inside) rfl rfl

/-- A prerelease and a build that end in hyphens, and a group with a wildcard. -/
theorem parse_canonical_of_hyphens :
    ∃ range, parse {} ">= 1.2.3-x-+b-,<2||1.x" = .ok range ∧
      range.text = ">=1.2.3-x-+b- <2.0.0 || >=1.0.0 <2.0.0" ∧
        range.Normal {} ∧ parse {} range.text = .ok range := by
  have read : parse {} ">= 1.2.3-x-+b-,<2||1.x" = .ok
      ⟨[[.exact .greaterEqual ⟨1, 2, 3, [.word "x-"], ["b-"]⟩ {}, .exact .less (.release 2 0 0) {}],
        [.exact .greaterEqual (.release 1 0 0) {}, .exact .less (.release 2 0 0) {}]]⟩ := by
    rfl
  obtain ⟨normal, again, -⟩ := parse_canonical read
  exact ⟨_, read, rfl, normal, again⟩

end Range

end VersionRange
