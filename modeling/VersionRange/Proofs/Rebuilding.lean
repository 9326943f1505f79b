import Mathlib.Logic.Relation
import VersionRange.Proofs.Group.Replacing
import VersionRange.Proofs.Parts
import VersionRange.Proofs.Partial.Grammar
import VersionRange.Proofs.WithoutBuild

/-!
# Changing builds in a range text

A full version in a range text can be given a build, another build or none.  Only the build of
a target changes with it, in one comparator or in two.  So the text is read as before, and the
range admits the versions that it admitted.
-/

namespace VersionRange

open Fallible VersionGrammar

namespace PartialVersion

/-- The texts are one full version with two builds, of which each may be absent. -/
inductive Rebuilding : List Char → List Char → Prop
  | plain {w : WrittenVersion} {build : List (List Char)} {text other : List Char}
      (tree : VersionText w text) (otherTree : VersionText { w with build } other) :
      Rebuilding text other
  | marked {w : WrittenVersion} {build : List (List Char)} {text other : List Char}
      (tree : VersionText w text) (otherTree : VersionText { w with build } other) :
      Rebuilding ('v' :: text) ('v' :: other)

theorem Rebuilding.exists_trees {text other : List Char} (step : Rebuilding text other) :
    ∃ w build body otherBody, VersionText w body ∧ VersionText { w with build } otherBody ∧
      (text = body ∧ other = otherBody ∨ text = 'v' :: body ∧ other = 'v' :: otherBody) := by
  cases step with
  | plain tree otherTree => exact ⟨_, _, _, _, tree, otherTree, .inl ⟨rfl, rfl⟩⟩
  | marked tree otherTree => exact ⟨_, _, _, _, tree, otherTree, .inr ⟨rfl, rfl⟩⟩

/-- The text of a full version is read as nothing else. -/
theorem exists_full_of_versionText {w : WrittenVersion} {text body : List Char}
    (tree : VersionText w body) (front : text = body ∨ text = 'v' :: body) {p : PartialVersion}
    (read : parseChars text = .ok p) : ∃ v, p = .full v ∧ v.Readable ∧ v.written = w := by
  obtain ⟨suffix, spelled, whole⟩ := spelled_of_versionText tree
  have form := Written.read?_of_spelled_or_marked spelled front
  obtain ⟨leading, full⟩ := leading_eq_of_parseChars form read
  cases p with
  | full v =>
      obtain ⟨readable, chars⟩ := full v rfl
      have same : v.chars = body := chars.trans whole.symm
      have written : VersionText v.written body :=
        versionText_iff.mpr ⟨Version.formed_written readable, (Version.chars_written v).trans same⟩
      rw [versionText_iff_read?] at written tree
      exact ⟨v, rfl, readable, Option.some_inj.mp (written.symm.trans tree)⟩
  | any | major m | minor m n => simp [Written.leading, numbers] at leading

theorem Rebuilding.exists_parseChars {text other : List Char} (step : Rebuilding text other)
    {p : PartialVersion} (read : PartialVersion.parseChars text = .ok p) :
    ∃ q, PartialVersion.parseChars other = .ok q ∧ q.withoutBuild = p.withoutBuild := by
  obtain ⟨w, build, body, otherBody, tree, otherTree, fronts⟩ := step.exists_trees
  have front : text = body ∨ text = 'v' :: body := fronts.imp And.left And.left
  have otherFront : other = otherBody ∨ other = 'v' :: otherBody := fronts.imp And.right And.right
  obtain ⟨v, rfl, readable, rfl⟩ := exists_full_of_versionText tree front read
  obtain ⟨formed, chars⟩ := versionText_iff.mp otherTree
  obtain ⟨pieces, rfl⟩ : ∃ pieces : List String, pieces.map String.toList = build :=
    ⟨build.map String.ofList, by simp [Function.comp_def]⟩
  have otherReadable : Version.Readable { v with build := pieces } :=
    { readable with build := fun piece member => formed.build _ (List.mem_map_of_mem member) }
  have same : Version.chars { v with build := pieces } = otherBody :=
    (Version.chars_written _).symm.trans chars
  refine ⟨.full { v with build := pieces }, parseChars_eq_ok_full_iff.mpr ⟨otherReadable, ?_⟩, rfl⟩
  rwa [same]

theorem Rebuilding.begins {text other : List Char} (step : Rebuilding text other) :
    ∃ c rest, text = c :: rest ∧ (c.isDigit = true ∨ c = 'v') := by
  cases step with
  | marked tree otherTree => exact ⟨'v', _, rfl, .inr rfl⟩
  | plain tree otherTree =>
      cases tree with
      | intro majorForm =>
          cases majorForm with
          | zero => exact ⟨'0', _, rfl, .inl rfl⟩
          | positive notZero digits => exact ⟨_, _, rfl, .inl (digits _ List.mem_cons_self)⟩

theorem Rebuilding.isVersionChar {text other : List Char} (step : Rebuilding text other) :
    ∀ c ∈ other, isVersionChar c = true := by
  have allowed {w : WrittenVersion} {body : List Char} (tree : VersionText w body) :
      ∀ c ∈ body, VersionRange.isVersionChar c = true := by
    obtain ⟨formed, rfl⟩ := versionText_iff.mp tree
    exact fun _ => WrittenVersion.isVersionChar_of_mem_chars formed
  cases step with
  | plain tree otherTree => exact allowed otherTree
  | marked tree otherTree => exact List.forall_mem_cons.mpr ⟨by decide, allowed otherTree⟩

theorem Rebuilding.symm {text other : List Char} (step : Rebuilding text other) :
    Rebuilding other text := by
  cases step with
  | plain tree otherTree => exact .plain otherTree tree
  | marked tree otherTree => exact .marked otherTree tree

end PartialVersion

namespace Group

open PartialVersion (Rebuilding)

variable {options : ParseOptions} {front back text other : List Char}

theorem replaces_of_rebuilding (step : Rebuilding text other) :
    Replaces options Comparator.withoutBuild text other where
  begins := by
    obtain ⟨c, rest, start, first⟩ := step.begins
    exact ⟨c, rest, start, .inr first⟩
  reads p read := by
    obtain ⟨q, again, same⟩ := step.exists_parseChars read
    exact ⟨q, again, alike_of_withoutBuild (PartialVersion.readable_of_parseChars read)
      (PartialVersion.readable_of_parseChars again) same⟩

theorem solid_of_rebuilding (step : Rebuilding text other) : Solid text := by
  obtain ⟨c, rest, start, -⟩ := step.begins
  have allowed := step.symm.isVersionChar
  refine solid_of_isTokenChar (by simp [start]) (fun d member => ?_) fun d last => ?_
  · simp [isTokenChar, allowed d member]
  · exact not_isOperatorChar_of_isVersionChar (allowed d (List.mem_of_getLast? last))

/-- A group in which a full version gets another build is read as before, but for the build. -/
theorem follows_of_rebuilding
    (opens : ∀ c, front.getLast? = some c →
      isBlank c = true ∨ c = ',' ∨ isOperatorChar c = true)
    (closes : ∀ c, back.head? = some c → isBlank c = true ∨ c = ',')
    (step : Rebuilding text other) :
    Follows Comparator.withoutBuild (parse options (front ++ (text ++ back)))
      (parse options (front ++ (other ++ back))) := by
  intro found read
  obtain ⟨before, symbol, after, operators, around⟩ := tokens_around opens closes
  have tokensOf := around text (solid_of_rebuilding step)
  have otherTokens := around other (solid_of_rebuilding step.symm)
  have replaces : Replaces options Comparator.withoutBuild text other :=
    replaces_of_rebuilding step
  rw [parse_eq_ok_iff_expands (not_blank_of_tokens_ne_nil (by simp [tokensOf])), tokensOf] at read
  simp only [parse_eq_ok_iff_expands (not_blank_of_tokens_ne_nil (by simp [otherTokens] :
    tokens (front ++ (other ++ back)) ≠ [])), otherTokens]
  have among : symbol ++ text ∈ before ++ (symbol ++ text) :: after := by simp
  rcases eq_hyphen_or_exists_symbol read among with
    hyphen | ⟨sign, op, operand, w, known, same, form⟩
  · obtain ⟨c, rest, rfl, -, notHyphen⟩ := replaces.exists_plain
    obtain ⟨-, whole⟩ := (List.append_eq_singleton_iff.mp hyphen).resolve_right (by simp)
    exact absurd (List.cons.inj whole).1 notHyphen
  · have plain : ∀ c ∈ text, isOperatorChar c = false := fun c member =>
      not_isOperatorChar_of_isVersionChar (step.symm.isVersionChar c member)
    obtain rfl := eq_symbol_of_append known form operators plain same
    exact expands_of_operand known replaces read

end Group

namespace Range

open PartialVersion (Rebuilding)

/-- A full version may follow: the text ends in a separator or an operator, if it is not empty. -/
def Opens (front : List Char) : Prop :=
  ∀ c, front.getLast? = some c →
    isBlank c = true ∨ c = ',' ∨ c = '|' ∨ Group.isOperatorChar c = true

/-- A full version may stand in front: the text begins with a separator, if it is not empty. -/
def Closes (back : List Char) : Prop :=
  ∀ c, back.head? = some c → isBlank c = true ∨ c = ',' ∨ c = '|'

/-- One full version in a range text gets another build, or one that it did not have, or none. -/
inductive Rebuilt (text other : String) : Prop
  | intro {front back operand rebuilt : List Char} (opens : Opens front) (closes : Closes back)
      (step : Rebuilding operand rebuilt) (before : text.toList = front ++ (operand ++ back))
      (after : other.toList = front ++ (rebuilt ++ back)) : Rebuilt text other

variable {options : ParseOptions}

theorem bar_not_mem_of_rebuilding {text other : List Char} (step : Rebuilding text other) :
    '|' ∉ text :=
  fun member => absurd (step.symm.isVersionChar _ member) (by decide)

/-- A part in which a full version gets another build is read as before, but for the build. -/
theorem exists_group_of_rebuilding {first last text other : List Char} {group : List Comparator}
    (opens : Opens first) (closes : Closes last) (step : Rebuilding text other)
    (read : Group.parse options (first ++ (text ++ last)) = .ok group) :
    ∃ changed, Group.parse options (first ++ (other ++ last)) = .ok changed ∧
      changed.map Comparator.withoutBuild = group.map Comparator.withoutBuild := by
  have noBar := Group.bar_not_mem_of_parse read
  refine Group.follows_of_rebuilding (fun c head => ?_) (fun c head => ?_) step group read
  · rcases opens c head with blank | comma | rfl | operator
    · exact .inl blank
    · exact .inr (.inl comma)
    · exact absurd (List.mem_append_left _ (List.mem_of_getLast? head)) noBar
    · exact .inr (.inr operator)
  · rcases closes c head with blank | comma | rfl
    · exact .inl blank
    · exact .inr comma
    · refine absurd ?_ noBar
      simp [List.mem_of_mem_head? head]

theorem exists_parseGroups_of_rebuilding {before after : List (List Char)}
    {first last text other : List Char} {groups : List (List Comparator)}
    (opens : Opens first) (closes : Closes last) (step : Rebuilding text other)
    (read : parseGroups options (before ++ (first ++ (text ++ last)) :: after) = .ok groups) :
    ∃ changed, parseGroups options (before ++ (first ++ (other ++ last)) :: after) = .ok changed ∧
      changed.map (List.map Comparator.withoutBuild) =
        groups.map (List.map Comparator.withoutBuild) := by
  obtain ⟨front, group, back, frontRead, groupRead, backRead, rfl⟩ :=
    mapM_append_cons_eq_ok_iff.mp read
  obtain ⟨found, foundRead, rfl⟩ := map_eq_ok_iff.mp groupRead
  obtain ⟨changed, changedRead, same⟩ := exists_group_of_rebuilding opens closes step foundRead
  refine ⟨front ++ distinctBy Comparator.interchangeable changed :: back, ?_, ?_⟩
  · exact mapM_append_cons_eq_ok_iff.mpr
      ⟨front, _, back, frontRead, map_eq_ok_iff.mpr ⟨changed, changedRead, rfl⟩, backRead, rfl⟩
  · have distinct : (distinctBy Comparator.interchangeable changed).map Comparator.withoutBuild =
        (distinctBy Comparator.interchangeable found).map Comparator.withoutBuild := by
      rw [← distinctBy_withoutBuild, same, distinctBy_withoutBuild]
    simp [distinct]

/-- A text in which a full version gets another build is read as before, but for the build. -/
theorem exists_parse_of_rebuilt {text other : String} (rebuilt : Rebuilt text other)
    {range : Range} (read : parse options text = .ok range) :
    ∃ changed, parse options other = .ok changed ∧ changed.withoutBuild = range.withoutBuild := by
  obtain ⟨opens, closes, step, textSplit, otherSplit⟩ := rebuilt
  obtain ⟨groups, record, groupsRead, simplified⟩ := parse_eq_ok_iff.mp read
  obtain ⟨before, first, last, after, split, ⟨rest, starts⟩, around⟩ := splitGroups_around _ _
  rw [textSplit, around _ (Group.solid_of_rebuilding step).nonempty
    (bar_not_mem_of_rebuilding step)] at groupsRead
  have opensPart : Opens first := by
    intro c same
    apply opens
    rw [split, List.getLast?_append, same]
    rfl
  have closesPart : Closes last := by
    intro c same
    apply closes
    rw [← starts, List.head?_append, same]
    rfl
  obtain ⟨changed, changedRead, same⟩ :=
    exists_parseGroups_of_rebuilding opensPart closesPart step groupsRead
  obtain ⟨other, record', simplifiedOther, sameRange⟩ := simplify_withoutBuild same simplified
  refine ⟨other, parse_eq_ok_iff.mpr ⟨changed, record', ?_, simplifiedOther⟩, sameRange⟩
  rwa [otherSplit, around _ (Group.solid_of_rebuilding step.symm).nonempty
    (bar_not_mem_of_rebuilding step.symm)]

theorem exists_parse_of_rebuilts {text other : String}
    (steps : Relation.ReflTransGen Rebuilt text other) {range : Range}
    (read : parse options text = .ok range) :
    ∃ changed, parse options other = .ok changed ∧ changed.withoutBuild = range.withoutBuild := by
  induction steps with
  | refl => exact ⟨range, read, rfl⟩
  | tail _ step ih =>
      obtain ⟨middle, middleRead, same⟩ := ih
      obtain ⟨changed, changedRead, again⟩ := exists_parse_of_rebuilt step middleRead
      exact ⟨changed, changedRead, again.trans same⟩

/-- A range admits two versions of one rank alike.  However the builds in a range text are
changed, the text is still read if it was, and the range admits the same versions. -/
theorem includes_blind_to_build :
    (∀ (range : Range) (v w : Version), v.Constructed → w.Constructed → ShortRuns v.chars →
        ShortRuns w.chars → v.compare w = .eq → range.includes v = range.includes w) ∧
      ∀ (options : ParseOptions) (text other : String) (range : Range),
        Relation.ReflTransGen Rebuilt text other → parse options text = .ok range →
          ∃ changed, parse options other = .ok changed ∧
            ∀ v, changed.includes v = range.includes v := by
  constructor
  · intro range v w constructed otherConstructed short otherShort same
    exact includes_eq_of_compare_eq (constructed.sound.legible short)
      (otherConstructed.sound.legible otherShort) same range
  · intro options text other range steps read
    obtain ⟨changed, changedRead, same⟩ := exists_parse_of_rebuilts steps read
    refine ⟨changed, changedRead, fun v => ?_⟩
    rw [← includes_withoutBuild, same, includes_withoutBuild]

/-- A build is removed in the first group and another one is added in the second. -/
theorem includes_blind_to_build_of_groups :
    (∃ v w : Version, v ≠ w ∧ v.compare w = .eq ∧
        ∀ range : Range, range.includes v = range.includes w) ∧
      ∃ range changed, parse {} ">=1.2.3-a+7 || v3.0.0" = .ok range ∧
        parse {} ">=1.2.3-a || v3.0.0+x" = .ok changed ∧ range ≠ changed ∧
          ∀ v, changed.includes v = range.includes v := by
  obtain ⟨alike, blind⟩ := includes_blind_to_build
  constructor
  · have first : Version.Constructed ⟨1, 0, 0, [], ["a"]⟩ :=
      ⟨.int 1, .int 0, .int 0, .list [], .list [.text "a"], rfl⟩
    have second : Version.Constructed ⟨1, 0, 0, [], []⟩ :=
      ⟨.int 1, .int 0, .int 0, .list [], .list [], rfl⟩
    exact ⟨_, _, by decide, by decide, fun range => alike range _ _ first second
      (shortRuns_of_length_le (by decide)) (shortRuns_of_length_le (by decide)) (by decide)⟩
  · have built : VersionText ⟨['1'], ['2'], ['3'], [['a']], [['7']]⟩ "1.2.3-a+7".toList :=
      versionText_iff_read?.mpr rfl
    have bare : VersionText ⟨['1'], ['2'], ['3'], [['a']], []⟩ "1.2.3-a".toList :=
      versionText_iff_read?.mpr rfl
    have release : VersionText ⟨['3'], ['0'], ['0'], [], []⟩ "3.0.0".toList :=
      versionText_iff_read?.mpr rfl
    have releaseBuilt : VersionText ⟨['3'], ['0'], ['0'], [], [['x']]⟩ "3.0.0+x".toList :=
      versionText_iff_read?.mpr rfl
    have afterOperator : Opens ">=".toList := by
      rintro c ⟨⟩
      decide
    have beforeSpace : Closes " || v3.0.0".toList := by
      rintro c ⟨⟩
      decide
    have afterSpace : Opens ">=1.2.3-a || ".toList := by
      rintro c ⟨⟩
      decide
    have atEnd : Closes [] := by
      rintro c ⟨⟩
    have removed : Rebuilt ">=1.2.3-a+7 || v3.0.0" ">=1.2.3-a || v3.0.0" :=
      .intro afterOperator beforeSpace (.plain built bare) rfl rfl
    have added : Rebuilt ">=1.2.3-a || v3.0.0" ">=1.2.3-a || v3.0.0+x" :=
      .intro afterSpace atEnd (.marked release releaseBuilt) rfl rfl
    have read : parse {} ">=1.2.3-a+7 || v3.0.0" =
        .ok ⟨[[.exact .greaterEqual ⟨1, 2, 3, [.word "a"], ["7"]⟩ {}],
          [.exact .equal (.release 3 0 0) {}]]⟩ := rfl
    have steps := (Relation.ReflTransGen.single removed).tail added
    obtain ⟨changed, otherRead, same⟩ := blind {} _ _ _ steps read
    refine ⟨_, changed, read, otherRead, ?_, same⟩
    cases otherRead
    decide

end Range

end VersionRange
