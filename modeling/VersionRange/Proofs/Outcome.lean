import VersionRange.Proofs.Canonical
import VersionRange.Proofs.Degenerate

/-!
# How reading a range can end

Reading a range text gives a range all of whose groups have comparators, or a fault of
ranges, but for two exceptions.  A number that cannot be read or written for its length
is a fault of numerals, and a part that consists of blanks and commas has no comparator
to simplify the range to.  Which of these comes up is decided by what stands first.
-/

namespace VersionRange

open Fallible

namespace Range

/-- Reading gives a range all of whose groups have comparators, or a fault of ranges. -/
def EndsAsDocumented (options : ParseOptions) (text : String) : Prop :=
  (∃ range, parse options text = .ok range ∧ ∀ group ∈ range.groups, group ≠ []) ∨
    ∃ cause, parse options text = .error (.range cause)

/-- The items of all parts of a range text. -/
def items (text : String) : List Group.Item :=
  (splitGroups text.toList).flatMap Group.items

/-- An item has a number that is too long or too large, and all items before it expand. -/
def OverlongFirst (options : ParseOptions) (text : String) : Prop :=
  Preceded Group.Item.Overlong (fun item => ∃ found, item.expand options = .ok found) (items text)

/-- All items expand, and there is a part of blanks and at least one comma with no group
before it that consists of all-inclusive comparators. -/
def SeparatorsFirst (options : ParseOptions) (text : String) : Prop :=
  (∀ item ∈ items text, ∃ found, item.expand options = .ok found) ∧
    Preceded (fun part => allBlank part = false ∧ ∀ c ∈ part, isBlank c = true ∨ c = ',')
      (fun part => ∀ found, Group.parse options part = .ok found →
        ∃ c ∈ found, c.isAllInclusive = false)
      (splitGroups text.toList)

variable {options : ParseOptions} {text : String}

theorem parseGroups_eq_error_iff {fault : Fault} :
    parseGroups options (splitGroups text.toList) = .error fault ↔
      (items text).mapM (Group.Item.expand options) = .error fault := by
  refine mapM_flatMap_eq_error_iff fun part other => ?_
  rw [map_eq_error_iff, Group.parse_eq_error_iff]

theorem items_of_blank (blank : (splitGroups text.toList).all allBlank = true) :
    items text = [] := by
  rw [items, List.flatMap_eq_nil_iff]
  intro part member
  rw [Group.items, if_pos (List.all_eq_true.mp blank part member)]

theorem parse_eq_error_iff {fault : Fault} :
    parse options text = .error fault ↔
      (items text).mapM (Group.Item.expand options) = .error fault ∨
        ∃ groups, parseGroups options (splitGroups text.toList) = .ok groups ∧
          simplify groups = .error fault := by
  by_cases blank : (splitGroups text.toList).all allBlank = true
  · rw [parse_of_blank blank, items_of_blank blank]
    refine iff_of_false (by simp) ?_
    rintro (none | ⟨groups, read, fails⟩)
    · cases none
    · obtain ⟨-, before, _, after, rfl, rfl, -⟩ :=
        allInclusive?_eq_error_iff.mp (simplify_eq_error_iff.mp fails)
      obtain ⟨part, among, found, groupRead, empty⟩ :=
        exists_part_of_parseGroups read (List.mem_append_right before List.mem_cons_self)
      rw [Group.parse_of_blank (List.all_eq_true.mp blank part among)] at groupRead
      cases groupRead
      cases empty
  · rw [parse_of_not_blank blank, map_eq_error_iff, bind_eq_error_iff, parseGroups_eq_error_iff]

theorem fault_of_items {fault : Fault}
    (fails : (items text).mapM (Group.Item.expand options) = .error fault) :
    (∃ cause, fault = .range cause) ∨ ∃ cause, fault = .numeral cause := by
  obtain ⟨-, item, -, -, refused, -⟩ := mapM_eq_error_iff.mp fails
  exact Group.Item.fault_of_expand refused

theorem fault_of_simplify {groups : List (List Comparator)} {fault : Fault}
    (fails : simplify groups = .error fault) : fault = .emptyGroup :=
  (allInclusive?_eq_error_iff.mp (simplify_eq_error_iff.mp fails)).1

theorem fault_of_parse {fault : Fault} (refused : parse options text = .error fault) :
    (∃ cause, fault = .range cause) ∨ (∃ cause, fault = .numeral cause) ∨ fault = .emptyGroup := by
  rcases parse_eq_error_iff.mp refused with fails | ⟨groups, -, fails⟩
  · rcases fault_of_items fails with range | numeral
    · exact .inl range
    · exact .inr (.inl numeral)
  · exact .inr (.inr (fault_of_simplify fails))

theorem parse_numeral_iff :
    (∃ cause, parse options text = .error (.numeral cause)) ↔ OverlongFirst options text := by
  have atItem : (∃ cause, parse options text = .error (.numeral cause)) ↔
      ∃ cause, (items text).mapM (Group.Item.expand options) = .error (.numeral cause) := by
    refine exists_congr fun cause => ?_
    rw [parse_eq_error_iff]
    refine or_iff_left ?_
    rintro ⟨groups, -, fails⟩
    cases fault_of_simplify fails
  rw [atItem, Group.Item.mapM_expand_numeral_iff]
  rfl

theorem exists_groups_iff :
    (∃ groups, parseGroups options (splitGroups text.toList) = .ok groups) ↔
      ∀ item ∈ items text, ∃ found, item.expand options = .ok found := by
  rw [← mapM_succeeds_iff]
  cases outcome : parseGroups options (splitGroups text.toList) with
  | error fault => simp [parseGroups_eq_error_iff.mp outcome]
  | ok groups =>
      cases expansions : (items text).mapM (Group.Item.expand options) with
      | error fault => simp [parseGroups_eq_error_iff.mpr expansions] at outcome
      | ok found => simp

/-- What is read of a part decides over the group that it comes to. -/
theorem preceded_groups_iff {groups : List (List Comparator)}
    (read : parseGroups options (splitGroups text.toList) = .ok groups) :
    Preceded (fun part => allBlank part = false ∧ ∀ c ∈ part, isBlank c = true ∨ c = ',')
        (fun part => ∀ found, Group.parse options part = .ok found →
          ∃ c ∈ found, c.isAllInclusive = false)
        (splitGroups text.toList) ↔
      Preceded (· = []) (fun group => ∃ c ∈ group, c.isAllInclusive = false) groups := by
  refine preceded_congr (parseGroups_eq_ok_iff.mp read) ?_ ?_
  · rintro part _ ⟨found, groupRead, rfl⟩
    rw [← Group.parse_eq_ok_nil_iff, groupRead, Except.ok.injEq, distinctBy_eq_nil_iff]
  · rintro part _ ⟨found, groupRead, rfl⟩
    rw [groupRead]
    have staying : (∃ c ∈ distinctBy Comparator.interchangeable found, c.isAllInclusive = false) ↔
        ∃ c ∈ found, c.isAllInclusive = false :=
      exists_mem_distinctBy fun c d same => by
        rw [Comparator.isAllInclusive_eq_of_interchangeable same]
    simpa using staying.symm

theorem parse_emptyGroup_iff :
    parse options text = .error .emptyGroup ↔ SeparatorsFirst options text := by
  rw [parse_eq_error_iff, SeparatorsFirst, ← exists_groups_iff]
  constructor
  · -- Items fail with other faults only, so that the search for an all-inclusive group did.
    rintro (fails | ⟨groups, read, fails⟩)
    · rcases fault_of_items fails with ⟨_, range⟩ | ⟨_, numeral⟩
      · cases range
      · cases numeral
    · have first := (allInclusive?_eq_error_iff.mp (simplify_eq_error_iff.mp fails)).2
      exact ⟨⟨groups, read⟩, (preceded_groups_iff read).mpr first⟩
  · rintro ⟨⟨groups, read⟩, first⟩
    refine .inr ⟨groups, read, simplify_eq_error_iff.mpr (allInclusive?_eq_error_iff.mpr ⟨rfl, ?_⟩)⟩
    exact (preceded_groups_iff read).mp first

/-- Reading a range ends as documented unless an item whose numbers are too long or a
part of separators stands first, and each of the two has its own fault. -/
theorem endsAsDocumented_unless_first (options : ParseOptions) (text : String) :
    (EndsAsDocumented options text ↔
      ¬OverlongFirst options text ∧ ¬SeparatorsFirst options text) ∧
      ((∃ cause, parse options text = .error (.numeral cause)) ↔ OverlongFirst options text) ∧
        (parse options text = .error .emptyGroup ↔ SeparatorsFirst options text) := by
  refine ⟨?_, parse_numeral_iff, parse_emptyGroup_iff⟩
  rw [EndsAsDocumented, ← parse_numeral_iff, ← parse_emptyGroup_iff]
  cases outcome : parse options text with
  | ok range =>
      have groups := (normal_of_parse outcome).groups
      simpa using groups
  | error fault =>
      rcases fault_of_parse outcome with ⟨cause, rfl⟩ | ⟨cause, rfl⟩ | rfl <;> simp

theorem items_of_digits {digits : List Char} (form : isNumericForm digits = true) :
    items (String.ofList digits) = [.single digits] := by
  obtain ⟨nonempty, allDigits, -⟩ := isNumericForm_iff.mp form
  have isVersion (c : Char) (member : c ∈ digits) : isVersionChar c = true :=
    isVersionChar_of_isIdentifierChar (isIdentifierChar_of_isDigit (allDigits c member))
  have allowed (c : Char) (member : c ∈ digits) : Group.isTokenChar c = true := by
    simp [Group.isTokenChar, isVersion c member]
  have solid : Group.Solid digits :=
    Group.solid_of_isTokenChar nonempty allowed fun c last =>
      Group.not_isOperatorChar_of_isVersionChar (isVersion c (List.mem_of_getLast? last))
  have notHyphen : digits ≠ ['-'] := by
    rintro rfl
    exact absurd (allDigits '-' (by simp)) (by decide)
  have noBar := Group.bar_not_mem_of_isTokenChar allowed
  rw [items, String.toList_ofList, splitGroups_of_no_bar noBar, List.flatMap_singleton,
    Group.items_of_solid solid notHyphen]

theorem overlongFirst_of_digits {digits : List Char} (form : isNumericForm digits = true)
    (long : digitLimit < digits.length) : OverlongFirst options (String.ofList digits) := by
  have noRest (c : Char) (head : ([] : List Char).head? = some c) : c.isDigit = false := by
    cases head
  have place := PartialVersion.readPlace_append form noRest
  rw [List.append_nil] at place
  rw [OverlongFirst, items_of_digits form, preceded_cons]
  left
  obtain ⟨nonempty, allDigits, -⟩ := isNumericForm_iff.mp form
  cases digits with
  | nil => exact absurd rfl nonempty
  | cons c rest =>
      have digit := allDigits c List.mem_cons_self
      have noV : (c :: rest).head? ≠ some 'v' := by
        rintro head
        cases head
        revert digit
        decide
      have plain := Group.not_isOperatorChar_of_isVersionChar
        (isVersionChar_of_isIdentifierChar (isIdentifierChar_of_isDigit digit))
      rw [Group.Item.Overlong, Group.readOperator_of_plain plain]
      refine .inl ⟨⟨.number (c :: rest), none, none, []⟩, ?_, .inl ⟨c :: rest, ?_, long⟩⟩
      · rw [PartialVersion.Written.read?, if_neg noV, place]
        rfl
      · simp [PartialVersion.Written.leading]

/-- A single comma, and a number of more digits than are read. -/
theorem not_endsAsDocumented_of_comma :
    ¬EndsAsDocumented {} "," ∧ ¬EndsAsDocumented {} (String.ofList (List.replicate 4301 '9')) := by
  constructor
  · have comma : parse {} "," = .error .emptyGroup := by rfl
    simp [EndsAsDocumented, comma]
  · have form : isNumericForm (List.replicate 4301 '9') = true := by
      refine isNumericForm_iff.mpr ⟨List.replicate_succ_ne_nil, ?_, ?_⟩
      · intro c member
        rw [List.eq_of_mem_replicate member]
        decide
      · rw [List.replicate_succ, List.head?_cons]
        exact fun head => absurd (Option.some.inj head) (by decide)
    have long : digitLimit < (List.replicate 4301 '9').length := by
      rw [List.length_replicate]
      decide
    have overlong : OverlongFirst {} (String.ofList (List.replicate 4301 '9')) :=
      overlongFirst_of_digits form long
    obtain ⟨cause, refused⟩ := parse_numeral_iff.mpr overlong
    rintro (⟨range, read, -⟩ | ⟨other, range⟩)
    · rw [refused] at read
      cases read
    · rw [refused] at range
      cases range

end Range

end VersionRange
