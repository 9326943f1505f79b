import VersionRange.Proofs.Group.Pieces

/-!
# Which groups are accepted

A group is read exactly if it is a rendering of items, and is then read as their expansions
one after the other.  The pieces of a text that is read are put together to the items that
it is a rendering of; they are the only ones.  Any other text with a token is refused as a
range, unless a number in it stops the reading before that.
-/

namespace VersionRange

open Fallible PartialVersion

namespace Group

theorem WrittenGroup.formed_cons {i : WrittenItem} {run : List Char}
    {entries : List (WrittenItem × List Char)} (item : i.Formed) (spacing : Spacing run)
    (gap : entries ≠ [] → run ≠ []) (formed : Formed ⟨[], entries⟩) :
    Formed ⟨[], (i, run) :: entries⟩ where
  lead := formed.lead
  item := List.forall_mem_cons.mpr ⟨item, formed.item⟩
  run := List.forall_mem_cons.mpr ⟨spacing, formed.run⟩
  gap := by
    cases entries with
    | nil => simp
    | cons entry entries =>
        rw [List.dropLast_cons_cons]
        exact List.forall_mem_cons.mpr ⟨gap (by simp), formed.gap⟩

/-- A piece that is an operand, with the run behind it. -/
theorem Piece.exists_operand {piece : List (Char × List Char)} (form : Piece piece)
    {front operand : List (Char × List Char)} (split : piece = front ++ operand)
    {p : PartialVersion} (read : parseChars (operand.map Prod.fst) = .ok p) :
    ∃ c run, piece.getLast? = some (c, run) ∧ Spacing run ∧
      spread operand = operand.map Prod.fst ++ run := by
  obtain ⟨w, written⟩ := exists_read?_of_parseChars read
  have nonempty : operand ≠ [] := by
    rintro rfl
    exact ne_nil_of_read? written rfl
  have inner : ∀ pair ∈ operand.dropLast, pair.2 = [] ∨ isOperatorChar pair.1 = true := by
    intro pair member
    apply form.inner pair
    rw [split, List.dropLast_append_of_ne_nil nonempty]
    exact List.mem_append_right front member
  obtain ⟨c, run, ends, whole⟩ := exists_run nonempty inner fun c member =>
    not_isOperatorChar_of_read? written member
  have last : piece.getLast? = some (c, run) := by
    rw [split, List.getLast?_append_of_ne_nil front nonempty, ends]
  exact ⟨c, run, last, form.tidy.spacing _ (List.mem_of_getLast? last), whole⟩

theorem eq_singleton_of_hyphen {piece : List (Char × List Char)} (form : Piece piece)
    (hyphen : piece.map Prod.fst = ['-']) :
    ∃ run, piece = [('-', run)] ∧ Spacing run := by
  obtain ⟨⟨c, run⟩, rfl, rfl⟩ := List.map_eq_singleton_iff.mp hyphen
  exact ⟨run, rfl, form.tidy.spacing _ List.mem_cons_self⟩

theorem exists_entries {options : ParseOptions} {group : List Char} {tokens : List (List Char)}
    {pieces : List (List (Char × List Char))} (form : Pieces pieces)
    (same : (pieces.map fun piece => piece.map Prod.fst) = tokens)
    (expands : ∀ item ∈ itemsOf group tokens, ∃ found, item.expand options = .ok found) :
    ∃ entries, (pieces = [] → entries = []) ∧ WrittenGroup.Formed ⟨[], entries⟩ ∧
      spread pieces.flatten = entries.flatMap fun (item, run) => item.chars ++ run := by
  -- The pieces go along with the tokens: one for a single item, three for a hyphen item.
  fun_induction itemsOf group tokens generalizing pieces with
  | case1 =>
      obtain rfl := List.map_eq_nil_iff.mp same
      exact ⟨[], fun _ => rfl, ⟨by simp [Spacing], by simp, by simp, by simp⟩, rfl⟩
  | case2 rest =>
      obtain ⟨found, expansion⟩ := expands _ List.mem_cons_self
      cases expansion
  | case3 token notLower =>
      obtain ⟨found, expansion⟩ := expands _ List.mem_cons_self
      cases expansion
  | case4 lower upper rest notLower ih =>
      obtain ⟨⟨found, expansion⟩, others⟩ := List.forall_mem_cons.mp expands
      obtain ⟨low, lowRead, highExpansion⟩ := bind_eq_ok_iff.mp expansion
      obtain ⟨high, highRead, -⟩ := bind_eq_ok_iff.mp highExpansion
      obtain ⟨first, _, rfl, rfl, sameBehind⟩ := List.map_eq_cons_iff.mp same
      obtain ⟨second, _, rfl, hyphen, sameUpper⟩ := List.map_eq_cons_iff.mp sameBehind
      obtain ⟨third, pieces, rfl, rfl, sameRest⟩ := List.map_eq_cons_iff.mp sameUpper
      obtain ⟨firstForm, firstGap, behind⟩ := form.of_cons
      obtain ⟨secondForm, secondGap, behindHyphen⟩ := behind.of_cons
      obtain ⟨thirdForm, thirdGap, piecesForm⟩ := behindHyphen.of_cons
      obtain ⟨_, before, firstLast, beforeRun, firstText⟩ :=
        firstForm.exists_operand (List.nil_append first).symm lowRead
      obtain ⟨after, rfl, afterRun⟩ := eq_singleton_of_hyphen secondForm hyphen
      obtain ⟨_, run, thirdLast, spacing, thirdText⟩ :=
        thirdForm.exists_operand (List.nil_append third).symm highRead
      obtain ⟨entries, none, formed, whole⟩ := ih piecesForm sameRest others
      refine ⟨(.hyphen (first.map Prod.fst) before after (third.map Prod.fst) low high, run) ::
        entries, by simp, WrittenGroup.formed_cons ?_ spacing ?_ formed, ?_⟩
      · exact ⟨standsFor_of_parseChars lowRead, ⟨firstGap (by simp) _ firstLast, beforeRun⟩,
          ⟨secondGap (by simp) _ rfl, afterRun⟩, standsFor_of_parseChars highRead⟩
      · exact fun more => thirdGap (fun last => more (none last)) _ thirdLast
      · simp only [List.flatten_cons, spread_append, firstText, thirdText, whole,
          List.flatMap_cons, WrittenItem.chars, spread_cons, List.append_assoc, List.cons_append]
        simp [spread]
  | case5 token rest notLower notUpper notHyphen ih =>
      obtain ⟨⟨found, expansion⟩, others⟩ := List.forall_mem_cons.mp expands
      obtain ⟨p, read, -⟩ := bind_eq_ok_iff.mp expansion
      change parseChars (readOperator token).2 = .ok p at read
      obtain ⟨symbol, known, split⟩ := exists_known_symbol token
      obtain ⟨piece, pieces, rfl, rfl, sameRest⟩ := List.map_eq_cons_iff.mp same
      obtain ⟨pieceForm, gap, piecesForm⟩ := form.of_cons
      obtain ⟨front, operand, rfl, symbolChars, operandChars⟩ := List.map_eq_append_iff.mp split
      rw [← operandChars] at read
      obtain ⟨_, run, last, spacing, operandText⟩ := pieceForm.exists_operand rfl read
      obtain ⟨entries, none, formed, whole⟩ := ih piecesForm sameRest others
      refine ⟨(.comparator (readOperator (List.map Prod.fst (front ++ operand))).1 front
        (operand.map Prod.fst) p, run) :: entries, by simp,
        WrittenGroup.formed_cons ?_ spacing ?_ formed, ?_⟩
      · refine ⟨by rwa [symbolChars, String.ofList_toList], fun pair member => ?_,
          standsFor_of_parseChars read⟩
        exact pieceForm.tidy.spacing pair (List.mem_append_left operand member)
      · exact fun more => gap (fun last => more (none last)) _ last
      · simp only [List.flatten_cons, spread_append, operandText, whole, List.flatMap_cons,
          WrittenItem.chars, List.append_assoc]

theorem exists_of_asking {asks : PartialVersion → Option Version}
    {comparators : PartialVersion → List Comparator}
    {expand : PartialVersion → Except Fault (List Comparator)}
    (asking : ∀ p, p.Readable → Asking (asks p) (comparators p) (expand p)) {p : PartialVersion}
    {operand : List Char} (form : p.StandsFor operand) (short : ¬TooLarge asks operand) :
    ∃ found, expand p = .ok found ∧ parseChars operand >>= expand = .ok found := by
  have read := parseChars_of_standsFor form fun long => short (.inl long)
  have outcome := asking p (readable_of_parseChars read)
  rw [read, ok_bind]
  generalize expand p = whole at outcome
  cases outcome with
  | granted fits => exact ⟨_, rfl, rfl⟩
  | refused asked unreadable => exact absurd (.inr ⟨p, read, _, asked, unreadable⟩) short

theorem WrittenItem.Formed.exists_expansion {i : WrittenItem} (formed : i.Formed)
    (options : ParseOptions) (short : ¬i.item.Overlong) :
    ∃ found, i.expand options = .ok found ∧ i.item.expand options = .ok found := by
  cases i with
  | comparator op symbol operand p =>
      have token := formed.readOperator
      have expands : Item.expand options (item (.comparator op symbol operand p)) =
          parseChars operand >>= expandItem options op := by
        rw [item, Item.expand, expandToken, token]
      rw [item, Item.Overlong, token] at short
      rw [expands]
      exact exists_of_asking (fun _ readable => asking_expandItem readable) formed.2.2 short
  | hyphen lower before after upper low high =>
      obtain ⟨lowForm, -, -, highForm⟩ := formed
      rw [item, Item.Overlong, not_or, not_and] at short
      have lowRead := parseChars_of_standsFor lowForm short.1
      have expands : Item.expand options (item (.hyphen lower before after upper low high)) =
          parseChars upper >>= expandHyphen options low := by
        rw [item, Item.expand, lowRead]
        rfl
      have lowReadable := readable_of_parseChars lowRead
      rw [expands]
      exact exists_of_asking (fun _ _ => asking_expandHyphen lowReadable) highForm
        (short.2 ⟨low, lowRead⟩)

/-- What the items of a rendering expand to. -/
def WrittenGroup.expansions (options : ParseOptions) (w : WrittenGroup) :
    Except Fault (List (List Comparator)) :=
  w.items.mapM fun entry => entry.1.expand options

theorem exists_expansions {options : ParseOptions} {entries : List (WrittenItem × List Char)}
    (formed : ∀ entry ∈ entries, entry.1.Formed)
    (short : ¬Preceded Item.Overlong (fun item => ∃ found, item.expand options = .ok found)
      (entries.map fun entry => entry.1.item)) :
    ∃ expansions, (entries.mapM fun entry => entry.1.expand options) = .ok expansions ∧
      (entries.map fun entry => entry.1.item).mapM (Item.expand options) = .ok expansions := by
  induction entries with
  | nil => exact ⟨[], rfl, rfl⟩
  | cons entry rest ih =>
      obtain ⟨i, run⟩ := entry
      obtain ⟨itemFormed, restFormed⟩ := List.forall_mem_cons.mp formed
      rw [List.map_cons, preceded_cons, not_or, not_and] at short
      obtain ⟨found, expands, same⟩ := itemFormed.exists_expansion options short.1
      obtain ⟨expansions, others, sameOthers⟩ := ih restFormed (short.2 ⟨found, same⟩)
      refine ⟨found :: expansions, ?_, ?_⟩
      · rw [List.mapM_cons, expands, others]
        rfl
      · rw [List.map_cons, List.mapM_cons, same, sameOthers]
        rfl

/-- An item with a number that is too long or too large comes before all others that do
not expand. -/
def OverlongFirst (options : ParseOptions) (group : List Char) : Prop :=
  Preceded Item.Overlong (fun item => ∃ found, item.expand options = .ok found) (items group)

theorem parse_numeral_iff_overlongFirst {options : ParseOptions} {group : List Char} :
    (∃ cause, parse options group = .error (.numeral cause)) ↔ OverlongFirst options group := by
  simp only [parse_eq_error_iff, Item.mapM_expand_numeral_iff]
  rfl

theorem not_blank_of_token {group : List Char} (token : ∃ c ∈ group, isBlank c = false ∧ c ≠ ',') :
    ¬allBlank group = true := by
  obtain ⟨c, member, solid, -⟩ := token
  intro blank
  rw [mem_allBlank blank member] at solid
  cases solid

theorem WrittenGroup.Formed.token {w : WrittenGroup} (formed : w.Formed) (some : w.items ≠ []) :
    ∃ c ∈ w.chars, isBlank c = false ∧ c ≠ ',' := by
  have tokens : ¬∀ c ∈ w.chars, isBlank c = true ∨ c = ',' := by
    rw [← tokens_eq_nil_iff]
    intro none
    have noItem := formed.itemsOf_tokens []
    rw [itemsOf_eq_nil_iff.mpr none] at noItem
    exact some (List.map_eq_nil_iff.mp noItem.symm)
  simpa using tokens

/-- The only rendering of a text that is read. -/
theorem existsUnique_rendering {options : ParseOptions} {group : List Char}
    {found : List Comparator} (read : parse options group = .ok found)
    (notBlank : ¬allBlank group = true) : ∃! w : WrittenGroup, w.Formed ∧ w.chars = group := by
  obtain ⟨lead, pairs, spacing, tidy, rfl⟩ := exists_pairs group
  obtain ⟨pieces, form, rfl, same⟩ := exists_pieces tidy
  rw [← tokens_spacing_append spacing] at same
  obtain ⟨entries, -, formed, whole⟩ :=
    exists_entries form same.symm (expands_of_parse read notBlank)
  have rendering : WrittenGroup.Formed ⟨lead, entries⟩ :=
    ⟨spacing, formed.item, formed.run, formed.gap⟩
  have chars : WrittenGroup.chars ⟨lead, entries⟩ = lead ++ spread pieces.flatten := by
    rw [WrittenGroup.chars, whole]
  exact ⟨⟨lead, entries⟩, ⟨rendering, chars⟩, fun other both =>
    both.1.unique rendering (both.2.trans chars.symm)⟩

/-- Every rendering of items is read as their expansions, one after the other.  A text with a
token that is read is a rendering, and of one sequence of items only; a text with a token
that is none is refused as a range, unless a number stops the reading. -/
theorem parse_accepts_renderings (options : ParseOptions) :
    (∀ w : WrittenGroup, w.Formed → w.items ≠ [] → ¬OverlongFirst options w.chars →
      ∃ expansions, w.expansions options = .ok expansions ∧
        parse options w.chars = .ok expansions.flatten) ∧
      ∀ group, (∃ c ∈ group, isBlank c = false ∧ c ≠ ',') →
        (∀ found, parse options group = .ok found →
          ∃! w : WrittenGroup, w.Formed ∧ w.chars = group) ∧
          ((¬∃ w : WrittenGroup, w.Formed ∧ w.chars = group) → ¬OverlongFirst options group →
            ∃ cause, parse options group = .error (.range cause)) := by
  refine ⟨fun w formed some short => ?_, fun group token => ⟨fun found read => ?_, ?_⟩⟩
  · have notBlank := not_blank_of_token (formed.token some)
    have same : items w.chars = w.items.map fun entry => entry.1.item := by
      rw [items, if_neg notBlank, formed.itemsOf_tokens]
    rw [OverlongFirst, same] at short
    obtain ⟨expansions, expands, sameExpands⟩ := exists_expansions formed.item short
    refine ⟨expansions, expands, ?_⟩
    rw [parse_of_not_blank notBlank, same, sameExpands]
    rfl
  · exact existsUnique_rendering read (not_blank_of_token token)
  · intro noRendering short
    cases outcome : parse options group with
    | ok found =>
        obtain ⟨w, rendering, -⟩ := existsUnique_rendering outcome (not_blank_of_token token)
        exact absurd ⟨w, rendering⟩ noRendering
    | error fault =>
        obtain ⟨-, item, -, -, refused, -⟩ := mapM_eq_error_iff.mp (parse_eq_error_iff.mp outcome)
        rcases Item.fault_of_expand refused with ⟨cause, rfl⟩ | ⟨cause, rfl⟩
        · exact ⟨cause, rfl⟩
        · exact absurd (parse_numeral_iff_overlongFirst.mp ⟨cause, outcome⟩) short

/-- A hyphen item does not end in an operator and its operand. -/
theorem no_rendering_of_operator : ¬∃ w : WrittenGroup, w.Formed ∧ w.chars = "1 - >2".toList := by
  rintro ⟨w, formed, same⟩
  have items := formed.itemsOf_tokens []
  rw [same] at items
  change [Item.hyphen ['1'] ['>', '2']] = _ at items
  obtain ⟨entry, member, hyphen⟩ := List.map_eq_singleton_iff.mp items.symm
  have entryFormed := formed.item entry (by simp [member])
  generalize entry.1 = i at hyphen entryFormed
  cases i with
  | comparator => cases hyphen
  | hyphen lower before after upper low high =>
      obtain ⟨rfl, rfl⟩ := Item.hyphen.inj hyphen
      obtain ⟨-, -, -, highForm⟩ := entryFormed
      obtain ⟨_, read⟩ := highForm.exists_read?
      cases read

/-- An operator that is spaced apart and a hyphen item, with blanks and commas around them. -/
def spacedOut : WrittenGroup where
  lead := [' ', ',']
  items :=
    [(.comparator (.primitive .greaterEqual) [('>', [' ']), ('=', [','])] "1.x".toList (.major 1),
        [' ']),
      (.hyphen "v0.2".toList [' '] [',', ' '] "2.3.4-rc".toList (.minor 0 2)
        (.full ⟨2, 3, 4, [.word "rc"], []⟩), [])]

theorem formed_spacedOut : spacedOut.Formed where
  lead := by decide
  item := by
    have operand : StandsFor (.major 1) "1.x".toList := standsFor_of_parseChars rfl
    have low : StandsFor (.minor 0 2) "v0.2".toList := standsFor_of_parseChars rfl
    have high : StandsFor (.full ⟨2, 3, 4, [.word "rc"], []⟩) "2.3.4-rc".toList :=
      standsFor_of_parseChars rfl
    exact List.forall_mem_cons.mpr ⟨⟨by decide, by decide, operand⟩, List.forall_mem_singleton.mpr
      ⟨low, ⟨by decide, by decide⟩, ⟨by decide, by decide⟩, high⟩⟩
  run := by decide
  gap := by decide

theorem parse_accepts_renderings_of_spacedOut :
    spacedOut.chars = " ,> =,1.x v0.2 -, 2.3.4-rc".toList ∧
      parse {} spacedOut.chars = .ok [.exact .greaterEqual ⟨1, 0, 0, [], []⟩ {},
        .exact .greaterEqual ⟨0, 2, 0, [], []⟩ {},
        .exact .lessEqual ⟨2, 3, 4, [.word "rc"], []⟩ {}] ∧
      (∃! w : WrittenGroup, w.Formed ∧ w.chars = spacedOut.chars) ∧
      ∃ cause, parse {} "1 - >2".toList = .error (.range cause) := by
  have expands : spacedOut.expansions {} = .ok [[.exact .greaterEqual ⟨1, 0, 0, [], []⟩ {}],
      [.exact .greaterEqual ⟨0, 2, 0, [], []⟩ {},
        .exact .lessEqual ⟨2, 3, 4, [.word "rc"], []⟩ {}]] := by rfl
  have some : spacedOut.items ≠ [] := by simp [spacedOut]
  have short : ¬OverlongFirst {} spacedOut.chars := by
    rw [← parse_numeral_iff_overlongFirst]
    rintro ⟨cause, ⟨⟩⟩
  have otherShort : ¬OverlongFirst {} "1 - >2".toList := by
    rw [← parse_numeral_iff_overlongFirst]
    rintro ⟨cause, ⟨⟩⟩
  obtain ⟨renderings, texts⟩ := parse_accepts_renderings {}
  obtain ⟨expansions, same, read⟩ := renderings spacedOut formed_spacedOut some short
  rw [expands] at same
  cases same
  refine ⟨rfl, read, (texts _ (formed_spacedOut.token some)).1 _ read, ?_⟩
  exact (texts _ ⟨'1', by decide, by decide, by decide⟩).2 no_rendering_of_operator otherShort

end Group

end VersionRange
