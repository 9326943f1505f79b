import VersionRange.Proofs.Partial.Respelling

/-!
# The shape of partial versions

What is read of a text has a component exactly where the places of the text are numbers up to
there.  Three numbers make a full version, which is written like the text; with fewer of them
the text has no suffix.  A suffix behind a wildcard is refused, and so is every other text
outside the grammar of partial versions.
-/

namespace VersionRange

open Fallible VersionGrammar

namespace PartialVersion

/-- The text without the `v` that it may start with. -/
def unmarked : List Char → List Char
  | 'v' :: rest => rest
  | text => text

namespace Written

/-- The places from the left, as far as they are written. -/
def places (w : Written) : List Place :=
  w.major :: (w.minor.toList ++ w.patch.toList)

/-- The text consists of the places and the suffix, with or without a `v` in front. -/
def Makes (w : Written) (text : List Char) : Prop :=
  ∃ body, w.Spelled body ∧ (text = body ∨ text = 'v' :: body)

/-- The number stands at the position, and there are numbers at all positions before it. -/
def NumberAt (w : Written) (position n : Nat) : Prop :=
  (∃ digits, w.places[position]? = some (.number digits) ∧ digitsValue digits = n) ∧
    ∀ earlier < position, ∃ digits, w.places[earlier]? = some (.number digits)

def NamesThree (w : Written) : Prop :=
  ∃ a b c, w.places = [.number a, .number b, .number c]

end Written

/-- How a partial version stands to the places of the text that it is read from. -/
structure Shaped (p : PartialVersion) (text : List Char) (w : Written) : Prop where
  makes : w.Makes text
  major (n : Nat) : p.major? = some n ↔ w.NumberAt 0 n
  minor (n : Nat) : p.minor? = some n ↔ w.NumberAt 1 n
  patch (n : Nat) : p.patch? = some n ↔ w.NumberAt 2 n
  inTurn : p.minor?.isSome = true → p.major?.isSome = true
  whole : p.patch?.isSome = true ↔ p.full?.isSome = true
  named : p.full?.isSome = true ↔ w.NamesThree
  full (v : Version) : p.full? = some v →
    (p.major? = some v.major ∧ p.minor? = some v.minor ∧ p.patch? = some v.patch) ∧
      v.chars = unmarked text
  short : p.full? = none → w.suffix = []

/-- The runs of digits in front of the first wildcard. -/
def numbersInFront : List Place → List (List Char)
  | .number digits :: rest => digits :: numbersInFront rest
  | _ => []

theorem getElem?_numbersInFront {places : List Place} {position : Nat} {digits : List Char} :
    (numbersInFront places)[position]? = some digits ↔
      places[position]? = some (.number digits) ∧
        ∀ earlier < position, ∃ run, places[earlier]? = some (.number run) := by
  induction places generalizing position with
  | nil => simp [numbersInFront]
  | cons place rest ih =>
      cases place with
      | wildcard =>
          cases position with
          | zero => simp [numbersInFront]
          | succ position =>
              refine iff_of_false (by simp [numbersInFront]) ?_
              rintro ⟨-, earlier⟩
              obtain ⟨run, found⟩ := earlier 0 (Nat.succ_pos position)
              cases found
      | number run =>
          cases position with
          | zero => simp [numbersInFront]
          | succ position =>
              simp only [numbersInFront, List.getElem?_cons_succ, ih]
              refine and_congr_right fun _ => ?_
              rw [Nat.forall_lt_succ_left]
              simp

namespace Written

variable {w : Written} {text body : List Char}

theorem Spelled.leading_eq (spelled : w.Spelled body) : w.leading = numbersInFront w.places := by
  cases spelled with
  | one first => cases first <;> rfl
  | two first second => cases first <;> cases second <;> rfl
  | three first second third form => cases first <;> cases second <;> cases third <;> rfl

theorem Makes.numberAt_iff (makes : w.Makes text) {position n : Nat} :
    w.NumberAt position n ↔ ∃ digits, w.leading[position]? = some digits ∧
      digitsValue digits = n := by
  obtain ⟨body, spelled, -⟩ := makes
  simp only [spelled.leading_eq, getElem?_numbersInFront, NumberAt]
  tauto

theorem Makes.read? (makes : w.Makes text) : Written.read? text = some w := by
  obtain ⟨body, spelled, front⟩ := makes
  exact read?_of_spelled_or_marked spelled front

theorem Spelled.namesThree_iff (spelled : w.Spelled body) :
    w.NamesThree ↔ w.leading.length = 3 := by
  cases spelled with
  | one first => cases first <;> simp [NamesThree, places, leading]
  | two first second => cases first <;> cases second <;> simp [NamesThree, places, leading]
  | three first second third form =>
      cases first <;> cases second <;> cases third <;> simp [NamesThree, places, leading]

theorem Spelled.unmarked_eq (spelled : w.Spelled body)
    (front : text = body ∨ text = 'v' :: body) :
    unmarked text = body := by
  have noV := (read?_of_spelled spelled).2
  rcases front with rfl | rfl
  · unfold unmarked
    split
    · exact absurd rfl noV
    · rfl
  · rfl

end Written

section Read

variable {p : PartialVersion}

theorem numbers_getElem? (p : PartialVersion) :
    p.numbers[0]? = p.major? ∧ p.numbers[1]? = p.minor? ∧ p.numbers[2]? = p.patch? := by
  cases p <;> exact ⟨rfl, rfl, rfl⟩

theorem numberAt_iff_of_parseChars {text : List Char} {w : Written} (makes : w.Makes text)
    (read : parseChars text = .ok p) {position n : Nat} :
    p.numbers[position]? = some n ↔ w.NumberAt position n := by
  rw [makes.numberAt_iff, (leading_eq_of_parseChars makes.read? read).1, List.getElem?_map]
  cases p.numbers[position]? <;> simp

theorem shaped_of_parseChars {text : List Char} (read : parseChars text = .ok p) :
    ∃ w, p.Shaped text w := by
  obtain ⟨w, form⟩ := exists_read?_of_parseChars read
  obtain ⟨body, spelled, front⟩ := Written.spelled_of_read? form
  have makes : w.Makes text := ⟨body, spelled, front⟩
  obtain ⟨majorAt, minorAt, patchAt⟩ := numbers_getElem? p
  obtain ⟨numbers, whole⟩ := leading_eq_of_parseChars form read
  have count : w.leading.length = p.numbers.length := by rw [numbers, List.length_map]
  refine ⟨w, makes, ?_, ?_, ?_, ?_, ?_, ?_, ?_, ?_⟩
  · intro n
    rw [← majorAt]
    exact numberAt_iff_of_parseChars makes read
  · intro n
    rw [← minorAt]
    exact numberAt_iff_of_parseChars makes read
  · intro n
    rw [← patchAt]
    exact numberAt_iff_of_parseChars makes read
  · cases p <;> simp [minor?, major?]
  · cases p <;> simp [patch?, full?]
  · rw [spelled.namesThree_iff, count]
    cases p <;> simp [full?, PartialVersion.numbers]
  · intro v isFull
    cases p with
    | full own =>
        obtain rfl := Option.some.inj isFull
        obtain ⟨-, written⟩ := whole own rfl
        refine ⟨⟨rfl, rfl, rfl⟩, ?_⟩
        rw [written, spelled.unmarked_eq front]
        exact (spelled.eq_dotted (by rw [count]; rfl)).symm
    | any | major | minor => cases isFull
  · intro notFull
    refine suffix_eq_nil_of_parseChars form ?_ read
    rw [count]
    cases p with
    | full v => cases notFull
    | any | major | minor => simp [PartialVersion.numbers]

end Read

section Refused

variable {text : List Char} {w : Written}

theorem Written.Spelled.occurs {body : List Char} (spelled : w.Spelled body) {digits : List Char}
    (member : Place.number digits ∈ w.places) : digits <:+: body := by
  have inside {place : Place} {front : List Char} (spelled : place.Spelled front)
      (same : .number digits = place) : digits <:+: front := by
    cases spelled with
    | wildcard wild => cases same
    | number form =>
        cases same
        exact List.infix_rfl
  cases spelled with
  | one first => exact inside first (by simpa [places] using member)
  | two first second =>
      rcases (by simpa [places] using member : _ ∨ _) with isFirst | isSecond
      · exact List.infix_append_of_infix_left (inside first isFirst)
      · exact List.infix_append_of_infix_right (List.infix_cons (inside second isSecond))
  | three first second third form =>
      rcases (by simpa [places] using member : _ ∨ _ ∨ _) with isFirst | isSecond | isThird
      · exact List.infix_append_of_infix_left (inside first isFirst)
      · refine List.infix_append_of_infix_right (List.infix_cons ?_)
        exact List.infix_append_of_infix_left (inside second isSecond)
      · refine List.infix_append_of_infix_right (List.infix_cons ?_)
        refine List.infix_append_of_infix_right (List.infix_cons ?_)
        exact List.infix_append_of_infix_left (inside third isThird)

theorem mem_of_mem_numbersInFront {places : List Place} {digits : List Char}
    (member : digits ∈ numbersInFront places) : .number digits ∈ places := by
  obtain ⟨position, found⟩ := List.mem_iff_getElem?.mp member
  exact List.mem_iff_getElem?.mpr ⟨position, (getElem?_numbersInFront.mp found).1⟩

theorem infix_of_front {body : List Char} (front : text = body ∨ text = 'v' :: body) :
    body <:+: text := by
  rcases front with rfl | rfl
  · exact List.infix_rfl
  · exact List.infix_cons List.infix_rfl

/-- The numbers in front of the first wildcard are runs of digits in the text. -/
theorem Written.Makes.length_le (makes : w.Makes text) (short : ShortRuns text)
    {digits : List Char} (member : digits ∈ w.leading) : digits.length ≤ digitLimit := by
  have form : isNumericForm digits = true :=
    isNumericForm_of_mem_leading (formed_of_read? makes.read?) member
  obtain ⟨body, spelled, front⟩ := makes
  rw [spelled.leading_eq] at member
  have occurs := spelled.occurs (mem_of_mem_numbersInFront member)
  exact short digits (occurs.trans (infix_of_front front)) (isNumericForm_iff.mp form).2.1

theorem not_overlong_of_shortRuns (short : ShortRuns text) : ¬Overlong text := by
  rintro ⟨w, form, ⟨digits, member, long⟩ |
    ⟨three, version, isVersion, piece, member, digits, long⟩⟩
  · have makes : w.Makes text := Written.spelled_of_read? form
    exact absurd (makes.length_le short member) (Nat.not_le.mpr long)
  · obtain ⟨body, spelled, front⟩ := Written.spelled_of_read? form
    rw [← spelled.eq_dotted three] at isVersion
    have pieces := (versionText_iff_read?.mpr isVersion).shortRuns
      (short.mono (infix_of_front front))
    have shortPiece := pieces piece (List.mem_append_right _ member)
    have few := shortPiece piece List.infix_rfl (List.all_eq_true.mp digits)
    omega

theorem parseChars_of_wildcard (makes : w.Makes text) (missing : ¬w.NamesThree)
    (suffix : w.suffix ≠ []) (short : ShortRuns text) :
    parseChars text = .error (.range (.suffixOnWildcard (String.ofList text))) := by
  have form := makes.read?
  have forms (digits : List Char) (member : digits ∈ w.leading) : isNumericForm digits = true :=
    Written.isNumericForm_of_mem_leading (Written.formed_of_read? form) member
  have numbersRead : ∃ numbers, w.leading.mapM readNumeral = .ok numbers :=
    mapM_succeeds_iff.mpr fun digits member => ⟨_, if_pos (makes.length_le short member)⟩
  obtain ⟨numbers, numbersRead⟩ := numbersRead
  have count : w.leading.length = numbers.length := (mapM_eq_ok_iff.mp numbersRead).length_eq
  have few := Written.length_leading_le w
  obtain ⟨body, spelled, -⟩ := makes
  rw [spelled.namesThree_iff, count] at missing
  rw [parseChars_eq form, numbersRead]
  have told (stopped : PartialVersion) : PartialVersion.short text w.suffix stopped =
      .error (.range (.suffixOnWildcard (String.ofList text))) := by
    simp [PartialVersion.short, suffix]
  rcases numbers with _ | ⟨_, _ | ⟨_, _ | ⟨_, _ | ⟨_, more⟩⟩⟩⟩
  · exact told _
  · exact told _
  · exact told _
  · exact absurd rfl missing
  · simp only [count, List.length_cons] at few
    omega

theorem parseChars_of_not_makes (noPlaces : ¬∃ w : Written, w.Makes text) :
    parseChars text = .error (.range (.badPartial (String.ofList text))) := by
  have unread : Written.read? text = none := by
    cases form : Written.read? text with
    | none => rfl
    | some w => exact absurd ⟨w, Written.spelled_of_read? form⟩ noPlaces
  rw [parseChars, unread]

theorem parseChars_range_iff (short : ShortRuns text) :
    (∃ cause, parseChars text = .error (.range cause)) ↔ ¬∃ p, StandsFor p text := by
  constructor
  · rintro ⟨cause, refused⟩ ⟨p, form⟩
    rw [parseChars_of_standsFor form (not_overlong_of_shortRuns short)] at refused
    cases refused
  · intro outside
    cases outcome : parseChars text with
    | ok p => exact absurd ⟨p, standsFor_of_parseChars outcome⟩ outside
    | error fault =>
        rcases fault_of_parseChars outcome with ⟨cause, rfl⟩ | ⟨cause, rfl⟩
        · exact ⟨cause, rfl⟩
        · exact absurd (parseChars_numeral_iff.mp ⟨cause, outcome⟩)
            (not_overlong_of_shortRuns short)

end Refused

/-- A text that is read has the shape that its places tell.  If the runs of digits are short
enough, the texts outside the grammar and no others are refused as ranges; a suffix behind a
wildcard is told as such, and a text that does not fall into places too. -/
theorem parse_shaped (text : String) :
    (∀ p, parse text = .ok p → ∃ w, p.Shaped text.toList w) ∧
      (ShortRuns text.toList →
        ((∃ cause, parse text = .error (.range cause)) ↔ ¬∃ p, StandsFor p text.toList) ∧
          ∀ w : Written, w.Makes text.toList → ¬w.NamesThree → w.suffix ≠ [] →
            parse text = .error (.range (.suffixOnWildcard text))) ∧
        ((¬∃ w : Written, w.Makes text.toList) →
          parse text = .error (.range (.badPartial text))) := by
  refine ⟨fun p read => shaped_of_parseChars read,
    fun short => ⟨parseChars_range_iff short, ?_⟩, ?_⟩
  · intro w makes missing suffix
    rw [parse, parseChars_of_wildcard makes missing suffix short, String.ofList_toList]
  · intro noPlaces
    rw [parse, parseChars_of_not_makes noPlaces, String.ofList_toList]

/-- A full version with a prerelease behind a `v`, a suffix behind a wildcard in the middle, and
a fourth place. -/
theorem parse_shaped_of_marked :
    (∃ v w, parse "v1.20.3-rc.x+007" = .ok (.full v) ∧
      (full v).Shaped "v1.20.3-rc.x+007".toList w ∧ v.text = "1.20.3-rc.x+007") ∧
      parse "1.x.3-rc" = .error (.range (.suffixOnWildcard "1.x.3-rc")) ∧
        parse "1.2.3.4" = .error (.range (.badPartial "1.2.3.4")) := by
  refine ⟨?_, ?_, ?_⟩
  · have read : parse "v1.20.3-rc.x+007" =
        .ok (.full ⟨1, 20, 3, [.word "rc", .word "x"], ["007"]⟩) := by rfl
    obtain ⟨w, shaped⟩ := (parse_shaped _).1 _ read
    have written := (shaped.full _ rfl).2
    exact ⟨_, w, read, shaped, String.toList_inj.mp written⟩
  · have short : ShortRuns "1.x.3-rc".toList := shortRuns_of_length_le (by decide)
    have spelled : Written.Spelled
        ⟨.number ['1'], some .wildcard, some (.number ['3']), "-rc".toList⟩
        "1.x.3-rc".toList := .three (a := ['1']) (.number rfl) (.wildcard rfl) (.number rfl) rfl
    refine ((parse_shaped _).2.1 short).2 _ ⟨_, spelled, .inl rfl⟩ ?_ (by decide)
    rintro ⟨a, b, c, same⟩
    cases same
  · refine (parse_shaped _).2.2 ?_
    rintro ⟨w, makes⟩
    have unread : Written.read? "1.2.3.4".toList = none := by decide
    rw [makes.read?] at unread
    cases unread

end PartialVersion

end VersionRange
