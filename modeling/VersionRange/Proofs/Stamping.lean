import VersionRange.Proofs.Degenerate
import VersionRange.Proofs.Parts

/-!
# Reading with other options

The options of a parse decide nothing while a text is read: they are stamped onto the
comparators that come out of it.  So reading with other options fails in the same cases and
with the same faults, or gives the same range with the other stamp.
-/

namespace VersionRange

open Fallible

namespace Comparator

/-- The comparator with other options. -/
def stamp (other : ParseOptions) : Comparator → Comparator
  | any _ => any other
  | exact op target _ => exact op target other

variable (other : ParseOptions) (c : Comparator)

@[simp]
theorem options_stamp : (c.stamp other).options = other := by
  cases c <;> rfl

@[simp]
theorem text_stamp : (c.stamp other).text = c.text := by
  cases c <;> rfl

@[simp]
theorem accepts_stamp (v : Version) : (c.stamp other).accepts v = c.accepts v := by
  cases c <;> rfl

@[simp]
theorem isAllInclusive_stamp : (c.stamp other).isAllInclusive = c.isAllInclusive := by
  cases c <;> rfl

@[simp]
theorem isAllExclusive_stamp : (c.stamp other).isAllExclusive = c.isAllExclusive := by
  cases c <;> rfl

theorem interchangeable_stamp {c d : Comparator} (same : c.options = d.options) :
    (c.stamp other).interchangeable (d.stamp other) = c.interchangeable d := by
  cases c with
  | any own =>
      cases d with
      | any own' =>
          change own = own' at same
          simp [stamp, interchangeable, same]
      | exact op' w own' => rfl
  | exact op v own =>
      cases d with
      | any own' => rfl
      | exact op' w own' =>
          change own = own' at same
          simp [stamp, interchangeable, same]

end Comparator

namespace Group

variable (options other : ParseOptions)

theorem confined_stamp (first : Version) (next? : Option Version) :
    confined other first next? = (confined options first next?).map (Comparator.stamp other) := by
  cases next? <;> rfl

theorem itemComparators_stamp (op : ItemOperator) (p : PartialVersion) :
    itemComparators other op p = (itemComparators options op p).map (Comparator.stamp other) := by
  cases op with
  | tilde => exact confined_stamp options other p.first p.tildeNext?
  | caret => exact confined_stamp options other p.first p.caretNext?
  | primitive op => cases p <;> cases op <;> rfl

theorem hyphenComparators_stamp (lower upper : PartialVersion) :
    hyphenComparators other lower upper =
      (hyphenComparators options lower upper).map (Comparator.stamp other) := by
  cases lower <;> cases upper <;> rfl

/-- Whether an expansion is granted depends on nothing but what it asks for. -/
theorem Asking.eq_map {next? : Option Version} {found : List Comparator}
    {outcome outcome' : Except Fault (List Comparator)} {f : Comparator → Comparator}
    (asking : Asking next? found outcome) (asking' : Asking next? (found.map f) outcome') :
    outcome' = outcome.map (List.map f) := by
  cases asking with
  | granted fits =>
      cases asking' with
      | granted => rfl
      | refused asked unreadable => exact absurd (fits _ asked) unreadable
  | refused asked unreadable =>
      cases asking' with
      | granted fits => exact absurd (fits _ asked) unreadable
      | refused => rfl

theorem Item.expand_stamp (item : Item) :
    item.expand other = (item.expand options).map (List.map (Comparator.stamp other)) := by
  cases item with
  | single token =>
      simp only [expand, expandToken]
      cases read : PartialVersion.parseChars (readOperator token).2 with
      | error fault => rfl
      | ok p =>
          have readable := PartialVersion.readable_of_parseChars read
          have asking : Asking _ _ (expandItem other (readOperator token).1 p) :=
            asking_expandItem readable
          rw [itemComparators_stamp options] at asking
          exact (asking_expandItem readable).eq_map asking
  | hyphen lower upper =>
      simp only [expand]
      cases lowRead : PartialVersion.parseChars lower with
      | error fault => rfl
      | ok low =>
          cases PartialVersion.parseChars upper with
          | error fault => rfl
          | ok high =>
              have readable := PartialVersion.readable_of_parseChars lowRead
              have asking : Asking _ _ (expandHyphen other low high) :=
                asking_expandHyphen readable
              rw [hyphenComparators_stamp options] at asking
              exact (asking_expandHyphen readable).eq_map asking
  | noLower group | noUpper group => rfl

theorem parse_stamp (group : List Char) :
    parse other group = (parse options group).map (List.map (Comparator.stamp other)) := by
  by_cases blank : allBlank group = true
  · rw [parse_of_blank blank, parse_of_blank blank]
    rfl
  · rw [parse_of_not_blank blank, parse_of_not_blank blank,
      mapM_eq_map_mapM fun item _ => Item.expand_stamp options other item]
    cases (items group).mapM (Item.expand options) with
    | error fault => rfl
    | ok expansions => exact congrArg Except.ok List.map_flatten.symm

end Group

namespace Range

/-- The range with other options. -/
def stamp (other : ParseOptions) (range : Range) : Range :=
  ⟨range.groups.map (List.map (Comparator.stamp other))⟩

variable (options other : ParseOptions)

theorem groupText_stamp (group : List Comparator) :
    groupText (group.map (Comparator.stamp other)) = groupText group := by
  simp [groupText, Function.comp_def]

theorem text_stamp (range : Range) : (range.stamp other).text = range.text := by
  simp [text, stamp, Function.comp_def, groupText_stamp]

theorem parseGroups_stamp (parts : List (List Char)) :
    parseGroups other parts =
      (parseGroups options parts).map (List.map (List.map (Comparator.stamp other))) := by
  refine mapM_eq_map_mapM fun part _ => ?_
  rw [Group.parse_stamp options]
  cases read : Group.parse options part with
  | error fault => rfl
  | ok found =>
      have stamped := Group.stamped_of_parse read
      refine congrArg Except.ok (distinctBy_map fun c member d among => ?_)
      have same := (stamped c member).options_eq.trans (stamped d among).options_eq.symm
      exact Comparator.interchangeable_stamp other same

/-- Reading a text with other options is reading it and stamping the result. -/
theorem parse_stamp (text : String) :
    parse other text = (parse options text).map (stamp other) := by
  by_cases blank : (splitGroups text.toList).all allBlank = true
  · rw [parse_of_blank blank, parse_of_blank blank]
    rfl
  · rw [parse_of_not_blank blank, parse_of_not_blank blank, parseGroups_stamp options]
    cases parseGroups options (splitGroups text.toList) with
    | error fault => rfl
    | ok groups =>
        exact simplify_map groups (Comparator.isAllInclusive_stamp other)
          (Comparator.isAllExclusive_stamp other)

end Range

end VersionRange
