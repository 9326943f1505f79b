import VersionRange.Proofs.Distinct
import VersionRange.Proofs.Group.Operands
import VersionRange.Proofs.Simplification

/-!
# The parts of a range text

A range text is cut at its double bars.  Each part is read as a group of its own, and
from each group repeated comparators are dropped, which leaves out no property that
equal comparators share.
-/

namespace VersionRange

open Fallible

namespace Range

theorem splitGroups_ne_nil (text : List Char) : splitGroups text ≠ [] := by
  fun_induction splitGroups text with
  | case1 rest ih => simp
  | case2 c rest notBars ih =>
      cases parts : splitGroups rest with
      | nil => exact absurd parts ih
      | cons part others => simp
  | case3 => simp

theorem splitGroups_append_of_no_bar {middle : List Char} (noBar : '|' ∉ middle)
    {back first : List Char} {others : List (List Char)}
    (parts : splitGroups back = first :: others) :
    splitGroups (middle ++ back) = (middle ++ first) :: others := by
  induction middle with
  | nil => exact parts
  | cons c rest ih =>
      rw [List.mem_cons, not_or] at noBar
      rw [List.cons_append, splitGroups, ih noBar.2]
      · rfl
      · exact fun _ bar _ => noBar.1 bar.symm

theorem splitGroups_of_no_bar {part : List Char} (noBar : '|' ∉ part) :
    splitGroups part = [part] := by
  simpa using splitGroups_append_of_no_bar noBar (rfl : splitGroups [] = [[]])

/-- A text without double bars, which is a single group. -/
def SinglePart (text : String) : Prop :=
  ¬['|', '|'] <:+: text.toList

theorem splitGroups_of_singlePart {text : String} (single : SinglePart text) :
    splitGroups text.toList = [text.toList] := by
  unfold SinglePart at single
  generalize text.toList = part at single
  fun_induction splitGroups part with
  | case1 rest ih => exact absurd (List.infix_append [] ['|', '|'] rest) single
  | case2 c rest notBars ih =>
      rw [ih fun inside => single (List.infix_cons inside)]
      rfl
  | case3 => rfl

theorem splitGroups_append_bars {part : List Char} (noBar : '|' ∉ part) (rest : List Char) :
    splitGroups (part ++ '|' :: '|' :: rest) = part :: splitGroups rest := by
  have bars : splitGroups ('|' :: '|' :: rest) = [] :: splitGroups rest := by rw [splitGroups]
  simpa using splitGroups_append_of_no_bar noBar bars

/-- What follows double bars is cut on its own, provided that no bar is left over in front
of them. -/
theorem splitGroups_append {text : List Char} (noBar : ∀ part ∈ splitGroups text, '|' ∉ part)
    (rest : List Char) :
    splitGroups (text ++ '|' :: '|' :: rest) = splitGroups text ++ splitGroups rest := by
  fun_induction splitGroups text with
  | case1 text ih =>
      have others := ih fun part member => noBar part (List.mem_cons_of_mem [] member)
      rw [List.cons_append, List.cons_append, splitGroups, others]
      rfl
  | case2 c text notBars ih =>
      obtain ⟨first, others, parts⟩ := List.exists_cons_of_ne_nil (splitGroups_ne_nil text)
      rw [parts, List.modifyHead_cons, List.forall_mem_cons, List.mem_cons, not_or] at noBar
      -- The first part starts with `c`, so `c` is no bar that could pair with the next one.
      obtain ⟨⟨notBar, inFirst⟩, inOthers⟩ := noBar
      have tail := ih (by rw [parts]; exact List.forall_mem_cons.mpr ⟨inFirst, inOthers⟩)
      rw [List.cons_append, splitGroups, tail, parts]
      · rfl
      · exact fun _ bar _ => notBar bar.symm
  | case3 => rfl

theorem exists_head_splitGroups (text : List Char) :
    ∃ first others, splitGroups text = first :: others ∧ first <+: text := by
  fun_induction splitGroups text with
  | case1 rest ih => exact ⟨[], _, rfl, List.nil_prefix⟩
  | case2 c rest notBars ih =>
      obtain ⟨first, others, parts, starts⟩ := ih
      exact ⟨c :: first, others, by rw [parts, List.modifyHead_cons],
        List.cons_prefix_cons.mpr ⟨rfl, starts⟩⟩
  | case3 => exact ⟨[], [], rfl, List.nil_prefix⟩

/-- A text without bars stands in one part, whatever it is. -/
theorem splitGroups_around (front back : List Char) :
    ∃ before first last after, front = before.flatMap (· ++ ['|', '|']) ++ first ∧ last <+: back ∧
      ∀ middle, middle ≠ [] → '|' ∉ middle → splitGroups (front ++ (middle ++ back)) =
        before ++ (first ++ (middle ++ last)) :: after := by
  fun_induction splitGroups front with
  | case1 rest ih =>
      obtain ⟨before, first, last, after, split, starts, around⟩ := ih
      refine ⟨[] :: before, first, last, after, by simp [split], starts,
        fun middle some noBar => ?_⟩
      rw [List.cons_append, List.cons_append, splitGroups, around middle some noBar]
      rfl
  | case2 c rest notBars ih =>
      obtain ⟨before, first, last, after, split, starts, around⟩ := ih
      have step {middle : List Char} (some : middle ≠ []) (noBar : '|' ∉ middle) :
          splitGroups (c :: rest ++ (middle ++ back)) =
            (before ++ (first ++ (middle ++ last)) :: after).modifyHead (c :: ·) := by
        rw [List.cons_append, splitGroups, around middle some noBar]
        intro others bar second
        -- The second bar would have to be in the middle, or `c` and it would be a pair before.
        cases rest with
        | nil =>
            obtain ⟨d, tail, rfl⟩ := List.exists_cons_of_ne_nil some
            obtain ⟨rfl, -⟩ := List.cons.inj second
            exact noBar List.mem_cons_self
        | cons d tail =>
            obtain ⟨rfl, -⟩ := List.cons.inj second
            exact notBars tail bar rfl
      cases before with
      | nil =>
          refine ⟨[], c :: first, last, after, by simp [split], starts, fun middle some noBar => ?_⟩
          exact step some noBar
      | cons part before =>
          refine ⟨(c :: part) :: before, first, last, after, by simp [split], starts,
            fun middle some noBar => ?_⟩
          exact step some noBar
  | case3 =>
      obtain ⟨last, after, parts, starts⟩ := exists_head_splitGroups back
      exact ⟨[], [], last, after, rfl, starts,
        fun middle _ noBar => splitGroups_append_of_no_bar noBar parts⟩

variable {options : ParseOptions} {parts : List (List Char)} {groups : List (List Comparator)}

theorem parse_of_blank {text : String} (blank : (splitGroups text.toList).all allBlank = true) :
    parse options text = .ok ⟨[[.any options]]⟩ := by
  rw [parse, parseRecorded, if_pos blank]
  rfl

theorem parse_of_not_blank {text : String}
    (notBlank : ¬(splitGroups text.toList).all allBlank = true) :
    parse options text =
      (parseGroups options (splitGroups text.toList) >>= simplify).map Prod.fst := by
  rw [parse, parseRecorded, if_neg notBlank]

theorem parseGroups_eq_ok_iff :
    parseGroups options parts = .ok groups ↔
      List.Forall₂ (fun part group => ∃ found, Group.parse options part = .ok found ∧
        distinctBy Comparator.interchangeable found = group) parts groups := by
  simp only [parseGroups, mapM_eq_ok_iff, map_eq_ok_iff]

theorem exists_part_of_parseGroups (read : parseGroups options parts = .ok groups)
    {group : List Comparator} (member : group ∈ groups) :
    ∃ part ∈ parts, ∃ found, Group.parse options part = .ok found ∧
      distinctBy Comparator.interchangeable found = group := by
  obtain ⟨part, among, whole⟩ := exists_item_of_mapM read member
  obtain ⟨found, groupRead, same⟩ := map_eq_ok_iff.mp whole
  exact ⟨part, among, found, groupRead, same⟩

theorem stamped_of_parseGroups (read : parseGroups options parts = .ok groups)
    {group : List Comparator} (member : group ∈ groups) : ∀ c ∈ group, c.Stamped options := by
  obtain ⟨part, -, found, groupRead, rfl⟩ := exists_part_of_parseGroups read member
  intro c inside
  exact Group.stamped_of_parse groupRead c ((distinctBy_sublist found).subset inside)

theorem parseGroups_append {first second : List (List Char)}
    {firstGroups secondGroups : List (List Comparator)}
    (firstRead : parseGroups options first = .ok firstGroups)
    (secondRead : parseGroups options second = .ok secondGroups) :
    parseGroups options (first ++ second) = .ok (firstGroups ++ secondGroups) := by
  rw [parseGroups_eq_ok_iff] at firstRead secondRead ⊢
  exact List.rel_append firstRead secondRead

theorem parseGroups_of_blank (blank : parts.all allBlank = true) :
    parseGroups options parts = .ok (parts.map fun _ => [.any options]) := by
  rw [parseGroups_eq_ok_iff, List.forall₂_map_right_iff, List.forall₂_same]
  intro part member
  exact ⟨_, Group.parse_of_blank (List.all_eq_true.mp blank part member), rfl⟩

/-- A text of blanks and double bars takes no short cut that could be told from the
result. -/
theorem parse_eq_ok_iff {text : String} {range : Range} :
    parse options text = .ok range ↔
      ∃ groups record, parseGroups options (splitGroups text.toList) = .ok groups ∧
        simplify groups = .ok (range, record) := by
  by_cases blank : (splitGroups text.toList).all allBlank = true
  · obtain ⟨first, others, parts⟩ := List.exists_cons_of_ne_nil (splitGroups_ne_nil text.toList)
    obtain ⟨record, simplified⟩ := simplify_any_cons options (others.map fun _ => [.any options])
    rw [parse_of_blank blank, parseGroups_of_blank blank, parts, List.map_cons]
    constructor
    · intro same
      cases same
      exact ⟨_, record, rfl, simplified⟩
    · rintro ⟨groups, other, groupsRead, again⟩
      cases groupsRead
      rw [simplified] at again
      cases again
      rfl
  · rw [parse_of_not_blank blank, map_eq_ok_iff]
    simp only [bind_eq_ok_iff, Prod.exists]
    constructor
    · rintro ⟨_, record, ⟨groups, groupsRead, simplified⟩, rfl⟩
      exact ⟨groups, record, groupsRead, simplified⟩
    · rintro ⟨groups, record, groupsRead, simplified⟩
      exact ⟨range, record, ⟨groups, groupsRead, simplified⟩, rfl⟩

theorem parse_eq_ok_iff_of_single {text : String} {part : List Char}
    (single : splitGroups text.toList = [part]) {range : Range} :
    parse options text = .ok range ↔
      ∃ found record, Group.parse options part = .ok found ∧
        simplify [distinctBy Comparator.interchangeable found] = .ok (range, record) := by
  rw [parse_eq_ok_iff, single]
  constructor
  · rintro ⟨groups, record, groupsRead, simplified⟩
    rw [parseGroups_eq_ok_iff, List.forall₂_cons_left_iff] at groupsRead
    obtain ⟨_, _, ⟨found, groupRead, rfl⟩, rest, rfl⟩ := groupsRead
    rw [List.forall₂_nil_left_iff] at rest
    subst rest
    exact ⟨found, record, groupRead, simplified⟩
  · rintro ⟨found, record, groupRead, simplified⟩
    refine ⟨_, record, ?_, simplified⟩
    rw [parseGroups, List.mapM_cons, groupRead]
    rfl

/-- The groups that the parts of a text stand for, before any of them is simplified. -/
def HasGroup (options : ParseOptions) (text : String) (group : List Comparator) : Prop :=
  ∃ part ∈ splitGroups text.toList, Group.parse options part = .ok group

theorem hasGroup_iff_of_single {text : String} {part : List Char}
    (single : splitGroups text.toList = [part]) {found : List Comparator}
    (read : Group.parse options part = .ok found) {group : List Comparator} :
    HasGroup options text group ↔ group = found := by
  simp only [HasGroup, single, List.mem_singleton, exists_eq_left, read, Except.ok.injEq]
  exact eq_comm

theorem exists_hasGroup {text : String}
    (read : parseGroups options (splitGroups text.toList) = .ok groups)
    {group : List Comparator} (member : group ∈ groups) :
    ∃ found, HasGroup options text found ∧
      distinctBy Comparator.interchangeable found = group := by
  obtain ⟨part, among, found, groupRead, same⟩ := exists_part_of_parseGroups read member
  exact ⟨found, ⟨part, among, groupRead⟩, same⟩

/-- A range is made of comparators that its groups were read with. -/
theorem exists_hasGroup_of_parse {text : String} {range : Range}
    (read : parse options text = .ok range) {group : List Comparator}
    (member : group ∈ range.groups) {c : Comparator} (inside : c ∈ group) :
    ∃ found, HasGroup options text found ∧ c ∈ found := by
  obtain ⟨groups, record, groupsRead, simplified⟩ := parse_eq_ok_iff.mp read
  have original : ∃ other ∈ groups, c ∈ other := by
    rcases simplify_cases simplified with ⟨d, among, -, single⟩ | ⟨same, -⟩
    · obtain rfl : c = d := by simpa [List.mem_singleton.mp (single ▸ member)] using inside
      exact List.mem_flatten.mp among
    · exact ⟨group, same ▸ member, inside⟩
  obtain ⟨other, among, insideOther⟩ := original
  obtain ⟨found, has, rfl⟩ := exists_hasGroup groupsRead among
  exact ⟨found, has, (distinctBy_sublist found).subset insideOther⟩

theorem bar_not_mem_of_parseGroups (read : parseGroups options parts = .ok groups) :
    ∀ part ∈ parts, '|' ∉ part := by
  intro part member
  obtain ⟨group, outcome⟩ := mapM_succeeds_iff.mp ⟨groups, read⟩ part member
  obtain ⟨found, groupRead, -⟩ := map_eq_ok_iff.mp outcome
  exact Group.bar_not_mem_of_parse groupRead

end Range

end VersionRange
