import VersionRange.Proofs.Degenerate
import VersionRange.Proofs.Group.Rendering
import VersionRange.Proofs.OneItem

/-!
# The law of hyphens

Two partial versions around a hyphen stand for a lower and an upper bound, both of them
included.  Written as two comparators the bounds are read in another way, and a wildcard
stays a comparator of its own beside the other bound, but the versions that are admitted are
the same.
-/

namespace VersionRange

open Fallible

namespace Group

section Texts

variable {options : ParseOptions}

/-- Tokens with a space between neighbours are read item by item. -/
theorem parse_spaced {separated : List (List Char)} (solid : ∀ token ∈ separated, Solid token)
    (nonempty : separated ≠ []) :
    parse options ([' '].intercalate separated) =
      ((itemsOf ([' '].intercalate separated) separated).mapM (Item.expand options)).map
        List.flatten := by
  have tokens := tokens_spaced solid
  have notBlank := not_blank_of_tokens_ne_nil (tokens.symm ▸ nonempty)
  rw [parse_of_not_blank notBlank, items, if_neg notBlank, tokens]

/-- The two ends are read, and the release above the upper one, if it is needed, can be
written. -/
structure Ends (lower upper : List Char) (low high : PartialVersion) : Prop where
  lower : PartialVersion.parseChars lower = .ok low
  upper : PartialVersion.parseChars upper = .ok high
  writable : ∀ next ∈ high.next?, next.Readable

variable {lower upper : List Char} {w x : PartialVersion.Written}

theorem solid_operand {operand : List Char} (form : PartialVersion.Written.read? operand = some w) :
    Solid operand :=
  solid_item (ItemOperator.mem_symbols (rfl : Operator.ofSymbol? "" = some .equal)) form

theorem solid_ends (lowerForm : PartialVersion.Written.read? lower = some w)
    (upperForm : PartialVersion.Written.read? upper = some x) :
    ∀ token ∈ [lower, ['-'], upper], Solid token := by
  simpa using ⟨solid_operand lowerForm, solid_hyphen, solid_operand upperForm⟩

theorem parse_hyphen_eq_ok_iff (lowerForm : PartialVersion.Written.read? lower = some w)
    (upperForm : PartialVersion.Written.read? upper = some x) {found : List Comparator} :
    parse options ([' '].intercalate [lower, ['-'], upper]) = .ok found ↔
      ∃ low high, Ends lower upper low high ∧ hyphenComparators options low high = found := by
  have item (group : List Char) :
      itemsOf group [lower, ['-'], upper] = [.hyphen lower upper] := by
    have notHyphen : "".toList ++ lower ≠ ['-'] := item_ne_hyphen lowerForm
    rw [itemsOf]
    · rfl
    · exact notHyphen
  have asking {low high : PartialVersion} (lowRead : PartialVersion.parseChars lower = .ok low) :
      Asking high.next? (hyphenComparators options low high) (expandHyphen options low high) :=
    asking_expandHyphen (PartialVersion.readable_of_parseChars lowRead)
  rw [parse_spaced (solid_ends lowerForm upperForm) (by simp), item, flatten_mapM_cons]
  constructor
  · intro read
    obtain ⟨comparators, expands, rest⟩ := bind_eq_ok_iff.mp read
    obtain ⟨low, lowRead, expands⟩ := bind_eq_ok_iff.mp expands
    obtain ⟨high, highRead, expands⟩ := bind_eq_ok_iff.mp expands
    obtain ⟨fits, rfl⟩ := (asking lowRead).eq_ok_iff.mp expands
    cases rest
    exact ⟨low, high, ⟨lowRead, highRead, fits⟩, (List.append_nil _).symm⟩
  · rintro ⟨low, high, ⟨lowRead, highRead, fits⟩, rfl⟩
    rw [Item.expand, lowRead, highRead, ok_bind, ok_bind,
      (asking lowRead).eq_ok_iff.mpr ⟨fits, rfl⟩]
    exact congrArg Except.ok (List.append_nil _)

theorem expandToken_eq_ok_iff {symbol : String} {op : ItemOperator}
    (known : (symbol, op) ∈ ItemOperator.symbols) {operand : List Char}
    (form : PartialVersion.Written.read? operand = some w) {found : List Comparator} :
    expandToken options (symbol.toList ++ operand) = .ok found ↔
      ∃ p, PartialVersion.parseChars operand = .ok p ∧ (∀ next ∈ itemNext? op p, next.Readable) ∧
        itemComparators options op p = found := by
  rw [expandToken, readOperator_item known form, bind_eq_ok_iff]
  refine exists_congr fun p => and_congr_right fun read => ?_
  exact (asking_expandItem (PartialVersion.readable_of_parseChars read)).eq_ok_iff

theorem parse_bounds_eq_ok_iff (lowerForm : PartialVersion.Written.read? lower = some w)
    (upperForm : PartialVersion.Written.read? upper = some x) {found : List Comparator} :
    parse options ([' '].intercalate [">=".toList ++ lower, "<=".toList ++ upper]) = .ok found ↔
      ∃ low high, Ends lower upper low high ∧
        primitiveComparators options .greaterEqual low ++
          primitiveComparators options .lessEqual high = found := by
  have above := ItemOperator.mem_symbols (rfl : Operator.ofSymbol? ">=" = some .greaterEqual)
  have below := ItemOperator.mem_symbols (rfl : Operator.ofSymbol? "<=" = some .lessEqual)
  have solid : ∀ token ∈ [">=".toList ++ lower, "<=".toList ++ upper], Solid token := by
    simpa using ⟨solid_item above lowerForm, solid_item below upperForm⟩
  have singles (group : List Char) :
      itemsOf group [">=".toList ++ lower, "<=".toList ++ upper] =
        [.single (">=".toList ++ lower), .single ("<=".toList ++ upper)] :=
    itemsOf_eq_map (by simp)
  rw [parse_spaced solid (by simp), singles, flatten_mapM_cons, flatten_mapM_cons]
  constructor
  · intro read
    obtain ⟨_, first, read⟩ := bind_eq_ok_iff.mp read
    obtain ⟨_, read, rest⟩ := bind_eq_ok_iff.mp read
    obtain ⟨_, second, read⟩ := bind_eq_ok_iff.mp read
    obtain ⟨low, lowRead, -, rfl⟩ := (expandToken_eq_ok_iff above lowerForm).mp first
    obtain ⟨high, highRead, fits, rfl⟩ := (expandToken_eq_ok_iff below upperForm).mp second
    cases read
    cases rest
    refine ⟨low, high, ⟨lowRead, highRead, fits⟩, ?_⟩
    exact congrArg _ (List.append_nil _).symm
  · rintro ⟨low, high, ⟨lowRead, highRead, fits⟩, rfl⟩
    have first : expandToken options (">=".toList ++ lower) =
        .ok (primitiveComparators options .greaterEqual low) :=
      (expandToken_eq_ok_iff above lowerForm).mpr ⟨low, lowRead, by simp [itemNext?], rfl⟩
    have second : expandToken options ("<=".toList ++ upper) =
        .ok (primitiveComparators options .lessEqual high) :=
      (expandToken_eq_ok_iff below upperForm).mpr ⟨high, highRead, fits, rfl⟩
    rw [Item.expand, first, ok_bind, Item.expand, second]
    exact congrArg Except.ok (congrArg _ (List.append_nil _))

end Texts

section Comparators

variable (options : ParseOptions) (low high : PartialVersion)

theorem primitiveComparators_greaterEqual :
    primitiveComparators options .greaterEqual low = orAny options (hyphenLower options low) := by
  cases low <;> rfl

theorem primitiveComparators_lessEqual :
    primitiveComparators options .lessEqual high = orAny options (hyphenUpper options high) := by
  cases high <;> rfl

theorem hyphenLower_cases :
    hyphenLower options low = [] ∨
      ∃ target, hyphenLower options low = [.exact .greaterEqual target options] := by
  cases low with
  | any => exact .inl rfl
  | major m | minor m n | full v => exact .inr ⟨_, rfl⟩

/-- An upper bound is no degenerate comparator. -/
theorem hyphenUpper_cases :
    hyphenUpper options high = [] ∨
      ∃ op target, hyphenUpper options high = [.exact op target options] ∧ op ≠ .greaterEqual ∧
        (Comparator.exact op target options).isAllExclusive = false := by
  cases high with
  | any => exact .inl rfl
  | major m | minor m n =>
      refine .inr ⟨.less, _, rfl, by decide, ?_⟩
      rw [Comparator.isAllExclusive, Version.not_sameRank_lowest_of_release rfl, Bool.and_false]
  | full v => exact .inr ⟨.lessEqual, v, rfl, by decide, rfl⟩

end Comparators

end Group

namespace Range

variable {options : ParseOptions}

/-- A wildcard beside other comparators neither refuses nor unlocks anything. -/
theorem groupIncludes_of_wildcard {group other : List Comparator} (nonempty : other ≠ [])
    (own : ∀ c ∈ other, c.options = options)
    (members : ∀ c, c ∈ group ↔ c = .any options ∨ c ∈ other) (v : Version) :
    groupIncludes group v = groupIncludes other v := by
  obtain ⟨d, rest, rfl⟩ := List.exists_cons_of_ne_nil nonempty
  have first := own d List.mem_cons_self
  have gate : (∀ c, c = .any options ∨ c ∈ d :: rest → c.options.includePrerelease = true) ↔
      ∀ c ∈ d :: rest, c.options.includePrerelease = true := by
    refine ⟨fun all c member => all c (.inr member), ?_⟩
    rintro all c (rfl | member)
    · exact first ▸ all d List.mem_cons_self
    · exact all c member
  rw [Bool.eq_iff_iff, groupIncludes_iff, groupIncludes_iff]
  simp only [AllAccept, GateOpen, members, gate, reduceCtorEq, false_or]

section Wildcard

variable {op : Operator} {target : Version} {range : Range} {record : Option JournalRecord}

theorem includes_of_alone {c : Comparator}
    (simplified : simplify [distinctBy Comparator.interchangeable [c]] = .ok (range, record))
    (v : Version) : range.includes v = groupIncludes [c] v := by
  obtain ⟨_, alone⟩ := simplify_single c
  cases simplified.symm.trans alone
  exact includes_of_single rfl v

theorem includes_of_beside_wildcard {group : List Comparator}
    (order : group = [.any options, .exact op target options] ∨
      group = [.exact op target options, .any options])
    (notInclusive : (Comparator.exact op target options).isAllInclusive = false)
    (notExclusive : (Comparator.exact op target options).isAllExclusive = false)
    (simplified : simplify [distinctBy Comparator.interchangeable group] = .ok (range, record))
    (v : Version) : range.includes v = groupIncludes [.exact op target options] v := by
  have members (c : Comparator) :
      c ∈ group ↔ c = .any options ∨ c ∈ [.exact op target options] := by
    rcases order with rfl | rfl <;> simp [or_comm]
  have apart : distinctBy Comparator.interchangeable group = group := by
    rcases order with rfl | rfl <;> exact distinctBy_eq_self (by simp [Comparator.interchangeable])
  have irreducible : Irreducible [group] := by
    refine List.forall_mem_singleton.mpr ⟨⟨_, (members _).mpr (.inr (by simp)), notInclusive⟩, ?_⟩
    intro c member
    rcases (members c).mp member with rfl | same
    · rfl
    · rwa [List.mem_singleton.mp same]
  rw [apart] at simplified
  cases simplified.symm.trans (simplify_of_irreducible irreducible)
  rw [includes_of_single rfl]
  exact groupIncludes_of_wildcard (by simp) (by simp [Comparator.options]) members v

/-- An all-inclusive bound in front of a wildcard is what the two come down to. -/
theorem includes_of_before_wildcard
    (notExclusive : (Comparator.exact op target options).isAllExclusive = false)
    (simplified : simplify [distinctBy Comparator.interchangeable
      [.exact op target options, .any options]] = .ok (range, record))
    (v : Version) : range.includes v = groupIncludes [.exact op target options] v := by
  cases inclusive : (Comparator.exact op target options).isAllInclusive with
  | false => exact includes_of_beside_wildcard (.inr rfl) inclusive notExclusive simplified v
  | true =>
      have apart : distinctBy Comparator.interchangeable
          [.exact op target options, .any options] = [.exact op target options, .any options] :=
        distinctBy_eq_self (by simp [Comparator.interchangeable])
      have all : [Comparator.exact op target options, .any options].all
          Comparator.isAllInclusive = true := by
        simp only [List.all_cons, inclusive]
        rfl
      have first : allInclusive? [[.exact op target options, .any options]] =
          .ok (some (.exact op target options)) := by
        simp only [allInclusive?, List.find?, all]
      rw [apart, simplify, first] at simplified
      cases simplified
      exact includes_of_single rfl v

end Wildcard

/-- The comparators of a hyphen and those of the two bounds come down to ranges that admit
the same versions. -/
theorem includes_eq_of_ends {low high : PartialVersion} {range other : Range}
    {record otherRecord : Option JournalRecord}
    (hyphen : simplify [distinctBy Comparator.interchangeable
      (Group.hyphenComparators options low high)] = .ok (range, record))
    (bounds : simplify [distinctBy Comparator.interchangeable
      (Group.primitiveComparators options .greaterEqual low ++
        Group.primitiveComparators options .lessEqual high)] = .ok (other, otherRecord))
    (v : Version) : range.includes v = other.includes v := by
  rw [Group.hyphenComparators] at hyphen
  rw [Group.primitiveComparators_greaterEqual, Group.primitiveComparators_lessEqual] at bounds
  rcases Group.hyphenLower_cases options low with noLower | ⟨target, lower⟩ <;>
    rcases Group.hyphenUpper_cases options high with
      noUpper | ⟨op, bound, upper, notLower, notExclusive⟩
  · -- A wildcard beside a wildcard is dropped as a repetition.
    rw [noLower, noUpper] at hyphen bounds
    have twice : distinctBy Comparator.interchangeable [.any options, .any options] =
        [Comparator.any options] := by simp [distinctBy, Comparator.interchangeable]
    have bounds : simplify [distinctBy Comparator.interchangeable
      [.any options, .any options]] = .ok (other, otherRecord) := bounds
    rw [twice] at bounds
    cases hyphen.symm.trans bounds
    rfl
  · -- An upper bound is neither all-inclusive nor all-exclusive, so that both stay.
    rw [noLower, upper] at hyphen bounds
    have notInclusive : (Comparator.exact op bound options).isAllInclusive = false := by
      simp [Comparator.isAllInclusive, notLower]
    rw [includes_of_alone hyphen,
      includes_of_beside_wildcard (.inl rfl) notInclusive notExclusive bounds]
  · -- The lower bound may be all-inclusive, and the two then come down to it.
    rw [lower, noUpper] at hyphen bounds
    rw [includes_of_alone hyphen, includes_of_before_wildcard rfl bounds]
  · rw [lower, upper] at hyphen bounds
    cases hyphen.symm.trans bounds
    rfl

section Texts

variable {lower upper : String} {w x : PartialVersion.Written}

theorem parse_succeeds_iff_of_single {text : String} {part : List Char}
    (single : splitGroups text.toList = [part]) :
    (∃ range, parse options text = .ok range) ↔
      ∃ found, Group.parse options part = .ok found ∧ found ≠ [] := by
  simp only [parse_eq_ok_iff_of_single single]
  have reduces (found : List Comparator) :
      (∃ range record, simplify [distinctBy Comparator.interchangeable found] =
        .ok (range, record)) ↔ found ≠ [] := by
    rw [simplify_succeeds_iff_of_single, ne_eq, distinctBy_eq_nil_iff]
  constructor
  · rintro ⟨range, found, record, read, simplified⟩
    exact ⟨found, read, (reduces found).mp ⟨range, record, simplified⟩⟩
  · rintro ⟨found, read, nonempty⟩
    obtain ⟨range, record, simplified⟩ := (reduces found).mpr nonempty
    exact ⟨range, found, record, read, simplified⟩

/-- Spaced tokens without bars are one part. -/
theorem splitGroups_spaced {tokens : List (List Char)}
    (allowed : ∀ token ∈ tokens, ∀ c ∈ token, Group.isTokenChar c = true) :
    splitGroups ([' '].intercalate tokens) = [[' '].intercalate tokens] := by
  refine splitGroups_of_no_bar fun bar => ?_
  rcases mem_intercalate bar with space | ⟨token, member, inside⟩
  · simp at space
  · exact Group.bar_not_mem_of_isTokenChar (allowed token member) inside

theorem splitGroups_hyphen (lowerForm : PartialVersion.Written.read? lower.toList = some w)
    (upperForm : PartialVersion.Written.read? upper.toList = some x) :
    splitGroups (lower ++ " - " ++ upper).toList =
      [[' '].intercalate [lower.toList, ['-'], upper.toList]] := by
  have text : (lower ++ " - " ++ upper).toList =
      [' '].intercalate [lower.toList, ['-'], upper.toList] := by
    simp [List.intercalate_cons_cons]
  have plain (operand : String) {w : PartialVersion.Written}
      (form : PartialVersion.Written.read? operand.toList = some w) (c : Char)
      (inside : c ∈ operand.toList) : Group.isTokenChar c = true :=
    Group.isTokenChar_of_read? form inside
  rw [text]
  apply splitGroups_spaced
  simpa using ⟨plain lower lowerForm, by decide, plain upper upperForm⟩

theorem splitGroups_bounds (lowerForm : PartialVersion.Written.read? lower.toList = some w)
    (upperForm : PartialVersion.Written.read? upper.toList = some x) :
    splitGroups (">=" ++ lower ++ " <=" ++ upper).toList =
      [[' '].intercalate [">=".toList ++ lower.toList, "<=".toList ++ upper.toList]] := by
  have above := ItemOperator.mem_symbols (rfl : Operator.ofSymbol? ">=" = some .greaterEqual)
  have below := ItemOperator.mem_symbols (rfl : Operator.ofSymbol? "<=" = some .lessEqual)
  have text : (">=" ++ lower ++ " <=" ++ upper).toList =
      [' '].intercalate [">=".toList ++ lower.toList, "<=".toList ++ upper.toList] := by
    simp [List.intercalate_cons_cons]
  rw [text]
  apply splitGroups_spaced
  intro token member
  simp only [List.mem_cons, List.not_mem_nil, or_false] at member
  rcases member with rfl | rfl
  · exact Group.isTokenChar_item above lowerForm
  · exact Group.isTokenChar_item below upperForm

/-- A hyphen range has a meaning exactly if its two bounds do, and it admits the versions
that they admit. -/
theorem hyphen_admits_as_bounds (lowerForm : PartialVersion.Written.read? lower.toList = some w)
    (upperForm : PartialVersion.Written.read? upper.toList = some x) (options : ParseOptions) :
    ((∃ hyphen, parse options (lower ++ " - " ++ upper) = .ok hyphen) ↔
        ∃ bounds, parse options (">=" ++ lower ++ " <=" ++ upper) = .ok bounds) ∧
      ∀ hyphen bounds, parse options (lower ++ " - " ++ upper) = .ok hyphen →
        parse options (">=" ++ lower ++ " <=" ++ upper) = .ok bounds →
          ∀ v : Version, hyphen.includes v = bounds.includes v := by
  have one := splitGroups_hyphen lowerForm upperForm
  have two := splitGroups_bounds lowerForm upperForm
  constructor
  · rw [parse_succeeds_iff_of_single one, parse_succeeds_iff_of_single two]
    simp only [Group.parse_hyphen_eq_ok_iff lowerForm upperForm,
      Group.parse_bounds_eq_ok_iff lowerForm upperForm]
    constructor
    · rintro ⟨_, ⟨low, high, ends, rfl⟩, -⟩
      have above : Group.itemComparators options (.primitive .greaterEqual) low ≠ [] :=
        Group.itemComparators_ne_nil
      exact ⟨_, ⟨low, high, ends, rfl⟩, List.append_ne_nil_of_left_ne_nil above _⟩
    · rintro ⟨_, ⟨low, high, ends, rfl⟩, -⟩
      exact ⟨_, ⟨low, high, ends, rfl⟩, Group.hyphenComparators_ne_nil⟩
  · intro hyphen bounds hyphenRead boundsRead v
    obtain ⟨_, record, read, simplified⟩ := (parse_eq_ok_iff_of_single one).mp hyphenRead
    obtain ⟨low, high, ends, rfl⟩ := (Group.parse_hyphen_eq_ok_iff lowerForm upperForm).mp read
    obtain ⟨_, otherRecord, read, otherSimplified⟩ := (parse_eq_ok_iff_of_single two).mp boundsRead
    obtain ⟨sameLow, sameHigh, others, rfl⟩ :=
      (Group.parse_bounds_eq_ok_iff lowerForm upperForm).mp read
    cases ends.lower.symm.trans others.lower
    cases ends.upper.symm.trans others.upper
    exact includes_eq_of_ends simplified otherSimplified v

/-- A prerelease before a wildcard: the bounds keep the wildcard, and the prerelease unlocks
its own kind either way. -/
theorem hyphen_admits_as_bounds_before_wildcard :
    ∃ hyphen bounds, parse {} ("1.2.3-rc" ++ " - " ++ "*") = .ok hyphen ∧
      parse {} (">=" ++ "1.2.3-rc" ++ " <=" ++ "*") = .ok bounds ∧ hyphen ≠ bounds ∧
        hyphen.includes ⟨1, 2, 3, [.word "rd"], []⟩ = true ∧
          bounds.includes ⟨1, 2, 3, [.word "rd"], []⟩ = true := by
  have lowerForm : PartialVersion.Written.read? "1.2.3-rc".toList = some
      ⟨.number ['1'], some (.number ['2']), some (.number ['3']), ['-', 'r', 'c']⟩ := rfl
  have upperForm : PartialVersion.Written.read? "*".toList = some ⟨.wildcard, none, none, []⟩ := rfl
  have hyphenRead : parse {} ("1.2.3-rc" ++ " - " ++ "*") =
      .ok ⟨[[.exact .greaterEqual ⟨1, 2, 3, [.word "rc"], []⟩ {}]]⟩ := rfl
  obtain ⟨⟨bounds, boundsRead⟩, same⟩ :=
    (hyphen_admits_as_bounds lowerForm upperForm {}).imp_left fun succeeds =>
      succeeds.mp ⟨_, hyphenRead⟩
  have admitted : (Range.mk [[.exact .greaterEqual ⟨1, 2, 3, [.word "rc"], []⟩ {}]]).includes
      ⟨1, 2, 3, [.word "rd"], []⟩ = true := by decide
  refine ⟨_, bounds, hyphenRead, boundsRead, ?_, admitted, ?_⟩
  · rintro rfl
    cases boundsRead
  · rw [← same _ bounds hyphenRead boundsRead]
    exact admitted

end Texts

end Range

end VersionRange
