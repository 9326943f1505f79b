import VersionRange.Proofs.Group.Seam
import VersionRange.Proofs.OneItem
import VersionRange.Proofs.Partial.Grammar

/-!
# Renderings of items

A sequence of items may be written in many ways: with any runs of blanks and commas around
it, between its tokens and behind the characters of its operators.  A rendering keeps all
of these runs, so that it is a text with all that stands in it.  The tokens of the text
are those of the items, whatever the runs are, and the text has one rendering only.
-/

namespace VersionRange

open Fallible PartialVersion

namespace Group

/-- A run of blanks and commas. -/
def Spacing (run : List Char) : Prop :=
  ∀ c ∈ run, isBlank c = true ∨ c = ','

instance (run : List Char) : Decidable (Spacing run) :=
  List.decidableBAll (fun c => isBlank c = true ∨ c = ',') run

/-- Characters, each with the run behind it. -/
def spread (pairs : List (Char × List Char)) : List Char :=
  pairs.flatMap fun (c, run) => c :: run

theorem spread_cons (c : Char) (run : List Char) (rest : List (Char × List Char)) :
    spread ((c, run) :: rest) = c :: (run ++ spread rest) := by
  simp [spread]

theorem spread_append (first second : List (Char × List Char)) :
    spread (first ++ second) = spread first ++ spread second :=
  List.flatMap_append

inductive WrittenItem
  /-- An operator, with the run behind each of its characters, and its operand. -/
  | comparator (op : ItemOperator) (symbol : List (Char × List Char)) (operand : List Char)
    (p : PartialVersion)
  /-- Two partial versions, with the runs before and after the hyphen. -/
  | hyphen (lower before after upper : List Char) (low high : PartialVersion)

namespace WrittenItem

def Formed : WrittenItem → Prop
  | comparator op symbol operand p =>
    (String.ofList (symbol.map Prod.fst), op) ∈ ItemOperator.symbols ∧
      (∀ pair ∈ symbol, Spacing pair.2) ∧ p.StandsFor operand
  | hyphen lower before after upper low high =>
    low.StandsFor lower ∧ (before ≠ [] ∧ Spacing before) ∧ (after ≠ [] ∧ Spacing after) ∧
      high.StandsFor upper

def chars : WrittenItem → List Char
  | comparator _ symbol operand _ => spread symbol ++ operand
  | hyphen lower before after upper _ _ => lower ++ (before ++ '-' :: (after ++ upper))

/-- What the item expands to. -/
def expand (options : ParseOptions) : WrittenItem → Except Fault (List Comparator)
  | comparator op _ _ p => expandItem options op p
  | hyphen _ _ _ _ low high => expandHyphen options low high

/-- The item without the runs. -/
def item : WrittenItem → Item
  | comparator _ symbol operand _ => .single (symbol.map Prod.fst ++ operand)
  | hyphen lower _ _ upper _ _ => .hyphen lower upper

end WrittenItem

/-- A sequence of items, each with the run behind it, and the run in front of them. -/
structure WrittenGroup where
  lead : List Char
  items : List (WrittenItem × List Char)

namespace WrittenGroup

/-- All runs consist of blanks and commas, and those between two items are not empty. -/
structure Formed (w : WrittenGroup) : Prop where
  lead : Spacing w.lead
  item : ∀ entry ∈ w.items, entry.1.Formed
  run : ∀ entry ∈ w.items, Spacing entry.2
  gap : ∀ entry ∈ w.items.dropLast, entry.2 ≠ []

def chars (w : WrittenGroup) : List Char :=
  w.lead ++ w.items.flatMap fun (item, run) => item.chars ++ run

end WrittenGroup

theorem tokens_spacing_append {run : List Char} (spacing : Spacing run) (rest : List Char) :
    tokens (run ++ rest) = tokens rest := by
  induction run with
  | nil => rfl
  | cons c run ih =>
      obtain ⟨separates, others⟩ := List.forall_mem_cons.mp spacing
      have noToken : ∀ token ∈ tokens [], ∀ c, token.getLast? = some c →
          isOperatorChar c = false := by
        rintro _ ⟨⟩
      exact (tokens_append_separator noToken separates (run ++ rest)).trans (ih others)

theorem tokens_append_gap {first gap : List Char}
    (closed : ∀ token ∈ tokens first, ∀ c, token.getLast? = some c → isOperatorChar c = false)
    (some : gap ≠ []) (spacing : Spacing gap) (rest : List Char) :
    tokens (first ++ (gap ++ rest)) = tokens first ++ tokens rest := by
  obtain ⟨c, gap, rfl⟩ := List.exists_cons_of_ne_nil some
  obtain ⟨separates, others⟩ := List.forall_mem_cons.mp spacing
  rw [List.cons_append, tokens_append_separator closed separates, tokens_spacing_append others]

theorem tokens_append_gap_of_solid {token gap : List Char} (solid : Solid token) (some : gap ≠ [])
    (spacing : Spacing gap) (rest : List Char) :
    tokens (token ++ (gap ++ rest)) = token :: tokens rest := by
  have closed : ∀ other ∈ tokens token, ∀ c, other.getLast? = Option.some c →
      isOperatorChar c = false := by
    simpa [tokens_of_solid solid] using solid.closed
  rw [tokens_append_gap closed some spacing, tokens_of_solid solid]
  rfl

theorem joinOperators_true_append {run : List Char} (blank : allBlank run = true)
    (rest : List Char) : joinOperators true (run ++ rest) = joinOperators true rest := by
  induction run with
  | nil => rfl
  | cons c run ih =>
      simp only [allBlank, List.all_cons, Bool.and_eq_true] at blank
      rw [List.cons_append, joinOperators, blank.1, Bool.and_self, if_pos rfl, ih blank.2]

theorem allBlank_of_spacing {run : List Char} (spacing : Spacing run) :
    allBlank (run.map fun c => if c = ',' then ' ' else c) = true := by
  rw [allBlank, List.all_map, List.all_eq_true]
  intro c member
  rcases spacing c member with blank | rfl
  · by_cases comma : c = ','
    · simp [comma, isBlank_space]
    · simp [comma, blank]
  · exact isBlank_space

/-- Runs behind the characters of an operator are dropped. -/
theorem joinOperators_spread (after : Bool) {symbol : List (Char × List Char)}
    {operand : List Char} (operators : ∀ pair ∈ symbol, isOperatorChar pair.1 = true)
    (runs : ∀ pair ∈ symbol, Spacing pair.2) (solid : Solid operand) :
    joinOperators after ((spread symbol ++ operand).map fun c => if c = ',' then ' ' else c) =
      symbol.map Prod.fst ++ operand := by
  induction symbol generalizing after with
  | nil =>
      rw [spread, List.flatMap_nil, List.nil_append, map_comma_of_solid solid]
      exact joinOperators_of_solid after fun c member => (solid.plain c member).1
  | cons pair symbol ih =>
      obtain ⟨c, run⟩ := pair
      obtain ⟨operator, operators⟩ := List.forall_mem_cons.mp operators
      obtain ⟨spacing, runs⟩ := List.forall_mem_cons.mp runs
      have notComma : c ≠ ',' := by
        rintro rfl
        cases operator
      have notBlank : isBlank c = false := by
        by_contra blank
        rw [not_isOperatorChar_of_isBlank (by simpa using blank)] at operator
        cases operator
      rw [spread_cons, List.cons_append, List.append_assoc, List.map_cons, if_neg notComma,
        List.map_append, joinOperators, notBlank, Bool.and_false, if_neg Bool.false_ne_true,
        operator, joinOperators_true_append (allBlank_of_spacing spacing), ih true operators runs]
      rfl

theorem solid_of_standsFor {p : PartialVersion} {operand : List Char}
    (form : p.StandsFor operand) : Solid operand := by
  obtain ⟨w, read⟩ := form.exists_read?
  have none : ("", ItemOperator.primitive .equal) ∈ ItemOperator.symbols := by decide
  exact solid_item none read

theorem ne_hyphen_of_standsFor {p : PartialVersion} {operand : List Char}
    (form : p.StandsFor operand) (front : List Char) : front ++ operand ≠ ['-'] := by
  obtain ⟨w, read⟩ := form.exists_read?
  intro hyphen
  rcases List.append_eq_singleton_iff.mp hyphen with ⟨-, rfl⟩ | ⟨-, empty⟩
  · cases read
  · exact ne_nil_of_read? read empty

theorem solid_hyphen : Solid ['-'] where
  nonempty := by simp
  plain := List.forall_mem_singleton.mpr (by decide)
  closed := by
    rintro c ⟨⟩
    decide

namespace WrittenItem

/-- The tokens of the item, each of which the spacing leaves as it is. -/
theorem Formed.solid {i : WrittenItem} (formed : i.Formed) :
    ∀ token ∈ i.item.tokens, Solid token := by
  cases i with
  | comparator op symbol operand p =>
      obtain ⟨known, -, form⟩ := formed
      obtain ⟨w, read⟩ := form.exists_read?
      have whole := solid_item known read
      rw [String.toList_ofList] at whole
      simpa [item, Item.tokens] using whole
  | hyphen lower before after upper low high =>
      obtain ⟨lowForm, -, -, highForm⟩ := formed
      simp only [item, Item.tokens, List.forall_mem_cons, List.not_mem_nil, false_imp_iff,
        implies_true, and_true]
      exact ⟨solid_of_standsFor lowForm, solid_hyphen, solid_of_standsFor highForm⟩

theorem Formed.operators {op : ItemOperator} {symbol : List (Char × List Char)}
    {operand : List Char} {p : PartialVersion} (formed : (comparator op symbol operand p).Formed) :
    ∀ pair ∈ symbol, isOperatorChar pair.1 = true := by
  intro pair member
  apply isOperatorChar_of_mem_symbols formed.1
  rw [String.toList_ofList]
  exact List.mem_map_of_mem member

theorem Formed.tokens_chars {i : WrittenItem} (formed : i.Formed) :
    tokens i.chars = i.item.tokens := by
  cases i with
  | comparator op symbol operand p =>
      have whole : Solid (symbol.map Prod.fst ++ operand) :=
        formed.solid _ (List.mem_singleton_self _)
      rw [chars, Group.tokens, joinOperators_spread false formed.operators formed.2.1
        (solid_of_standsFor formed.2.2)]
      exact words_of_solid whole.nonempty fun c member => (whole.plain c member).1
  | hyphen lower before after upper low high =>
      obtain ⟨lowForm, ⟨someBefore, beforeRun⟩, ⟨someAfter, afterRun⟩, highForm⟩ := formed
      calc tokens (lower ++ (before ++ ('-' :: (after ++ upper))))
        _ = lower :: tokens (['-'] ++ (after ++ upper)) :=
          tokens_append_gap_of_solid (solid_of_standsFor lowForm) someBefore beforeRun _
        _ = lower :: ['-'] :: tokens upper := by
          rw [tokens_append_gap_of_solid solid_hyphen someAfter afterRun]
        _ = [lower, ['-'], upper] := by
          rw [tokens_of_solid (solid_of_standsFor highForm)]

theorem Formed.closed {i : WrittenItem} (formed : i.Formed) :
    ∀ token ∈ tokens i.chars, ∀ c, token.getLast? = some c → isOperatorChar c = false := by
  rw [formed.tokens_chars]
  exact fun token among => (formed.solid token among).closed

theorem Formed.itemsOf_tokens {i : WrittenItem} (formed : i.Formed) (group : List Char) :
    itemsOf group i.item.tokens = [i.item] := by
  cases i with
  | comparator op symbol operand p =>
      -- A hyphen alone would be read as an item without its bounds.
      have notHyphen := ne_hyphen_of_standsFor formed.2.2 (symbol.map Prod.fst)
      simp [item, Item.tokens, itemsOf]
  | hyphen lower before after upper low high =>
      have notHyphen := ne_hyphen_of_standsFor formed.1 []
      rw [List.nil_append] at notHyphen
      simp [item, Item.tokens, itemsOf]

theorem Formed.head?_tokens {i : WrittenItem} (formed : i.Formed) (rest : List (List Char)) :
    (i.item.tokens ++ rest).head? ≠ some ['-'] := by
  cases i with
  | comparator op symbol operand p =>
      intro head
      exact ne_hyphen_of_standsFor formed.2.2 _ (Option.some.inj head)
  | hyphen lower before after upper low high =>
      intro head
      exact ne_hyphen_of_standsFor formed.1 [] (Option.some.inj head)

theorem item_complete (i : WrittenItem) (group : List Char) :
    i.item ≠ .noLower group ∧ i.item ≠ .noUpper group := by
  cases i <;> simp [item]

end WrittenItem

section Entries

variable {entries : List (WrittenItem × List Char)}

theorem tokens_entries (formed : ∀ entry ∈ entries, entry.1.Formed)
    (runs : ∀ entry ∈ entries, Spacing entry.2) (gaps : ∀ entry ∈ entries.dropLast, entry.2 ≠ []) :
    tokens (entries.flatMap fun (item, run) => item.chars ++ run) =
      entries.flatMap fun entry => entry.1.item.tokens := by
  induction entries with
  | nil => rfl
  | cons entry rest ih =>
      obtain ⟨i, run⟩ := entry
      obtain ⟨itemFormed, restFormed⟩ := List.forall_mem_cons.mp formed
      obtain ⟨spacing, restRuns⟩ := List.forall_mem_cons.mp runs
      rw [List.flatMap_cons, List.flatMap_cons, List.append_assoc]
      cases rest with
      | nil =>
          -- The run behind the last item may be empty.
          rw [List.flatMap_nil, List.flatMap_nil, List.append_nil, List.append_nil]
          by_cases noRun : run = []
          · rw [noRun, List.append_nil, itemFormed.tokens_chars]
          · have apart := tokens_append_gap itemFormed.closed noRun spacing []
            rw [List.append_nil] at apart
            rw [apart, itemFormed.tokens_chars]
            exact List.append_nil _
      | cons next rest =>
          rw [List.dropLast_cons_cons] at gaps
          obtain ⟨someRun, restGaps⟩ := List.forall_mem_cons.mp gaps
          rw [tokens_append_gap itemFormed.closed someRun spacing, itemFormed.tokens_chars,
            ih restFormed restRuns restGaps]

theorem itemsOf_entries (formed : ∀ entry ∈ entries, entry.1.Formed) (group : List Char) :
    itemsOf group (entries.flatMap fun entry => entry.1.item.tokens) =
      entries.map fun entry => entry.1.item := by
  induction entries with
  | nil => rfl
  | cons entry rest ih =>
      obtain ⟨i, run⟩ := entry
      obtain ⟨itemFormed, restFormed⟩ := List.forall_mem_cons.mp formed
      have noHyphen : (rest.flatMap fun entry => entry.1.item.tokens).head? ≠ some ['-'] := by
        cases rest with
        | nil => simp
        | cons next rest => exact (restFormed next List.mem_cons_self).head?_tokens _
      have complete : ∀ other ∈ itemsOf group i.item.tokens,
          other ≠ .noLower group ∧ other ≠ .noUpper group := by
        rw [itemFormed.itemsOf_tokens]
        intro other member
        rw [List.mem_singleton.mp member]
        exact i.item_complete group
      rw [List.flatMap_cons, itemsOf_append complete group _ noHyphen, itemFormed.itemsOf_tokens,
        ih restFormed]
      rfl

end Entries

theorem WrittenGroup.Formed.itemsOf_tokens {w : WrittenGroup} (formed : w.Formed)
    (group : List Char) :
    itemsOf group (tokens w.chars) = w.items.map fun entry => entry.1.item := by
  rw [chars, tokens_spacing_append formed.lead, tokens_entries formed.item formed.run formed.gap,
    itemsOf_entries formed.item]

/-- The text does not begin with a blank or a comma. -/
def Sharp (text : List Char) : Prop :=
  ∀ c, text.head? = some c → ¬(isBlank c = true ∨ c = ',')

theorem sharp_nil : Sharp [] := by
  rintro c ⟨⟩

theorem Solid.sharp {token : List Char} (solid : Solid token) (rest : List Char) :
    Sharp (token ++ rest) := by
  intro c head
  rw [List.head?_append_of_ne_nil _ solid.nonempty] at head
  obtain ⟨notBlank, notComma⟩ := solid.plain c (List.mem_of_mem_head? head)
  simp [notBlank, notComma]

theorem eq_of_run_append {run other x y : List Char} (spacing : Spacing run)
    (otherSpacing : Spacing other) (xSharp : Sharp x) (ySharp : Sharp y)
    (same : run ++ x = other ++ y) : run = other ∧ x = y := by
  induction run generalizing other with
  | nil =>
      cases other with
      | nil => exact ⟨rfl, same⟩
      | cons c other =>
          obtain rfl : x = c :: (other ++ y) := same
          exact absurd (otherSpacing c List.mem_cons_self) (xSharp c rfl)
  | cons c run ih =>
      cases other with
      | nil =>
          obtain rfl : c :: (run ++ x) = y := same
          exact absurd (spacing c List.mem_cons_self) (ySharp c rfl)
      | cons d other =>
          obtain ⟨rfl, rest⟩ := List.cons.inj same
          obtain ⟨rfl, behind⟩ := ih (List.forall_mem_cons.mp spacing).2
            (List.forall_mem_cons.mp otherSpacing).2 rest
          exact ⟨rfl, behind⟩

theorem sharp_spread_append {symbol : List (Char × List Char)}
    (operators : ∀ pair ∈ symbol, isOperatorChar pair.1 = true) {rest : List Char}
    (sharp : Sharp rest) : Sharp (spread symbol ++ rest) := by
  cases symbol with
  | nil => exact sharp
  | cons pair symbol =>
      rintro c ⟨⟩
      have operator := operators pair List.mem_cons_self
      rintro (blank | comma)
      · rw [not_isOperatorChar_of_isBlank blank] at operator
        cases operator
      · rw [comma] at operator
        cases operator

theorem eq_of_spread_append {symbol other : List (Char × List Char)} {x y : List Char}
    (operators : ∀ pair ∈ symbol, isOperatorChar pair.1 = true)
    (otherOperators : ∀ pair ∈ other, isOperatorChar pair.1 = true)
    (runs : ∀ pair ∈ symbol, Spacing pair.2) (otherRuns : ∀ pair ∈ other, Spacing pair.2)
    (characters : symbol.map Prod.fst = other.map Prod.fst) (xSharp : Sharp x) (ySharp : Sharp y)
    (same : spread symbol ++ x = spread other ++ y) : symbol = other ∧ x = y := by
  induction symbol generalizing other with
  | nil =>
      obtain rfl := List.map_eq_nil_iff.mp characters.symm
      exact ⟨rfl, same⟩
  | cons pair symbol ih =>
      obtain ⟨c, run⟩ := pair
      cases other with
      | nil => cases characters
      | cons otherPair other =>
          obtain ⟨d, otherRun⟩ := otherPair
          simp only [List.map_cons, List.cons.injEq] at characters
          rw [List.forall_mem_cons] at operators otherOperators runs otherRuns
          obtain ⟨rfl, characters⟩ := characters
          have tails : run ++ (spread symbol ++ x) = otherRun ++ (spread other ++ y) := by
            simpa [spread_cons] using same
          obtain ⟨rfl, rest⟩ := eq_of_run_append runs.1 otherRuns.1
            (sharp_spread_append operators.2 xSharp) (sharp_spread_append otherOperators.2 ySharp)
            tails
          obtain ⟨rfl, behind⟩ := ih operators.2 otherOperators.2 runs.2 otherRuns.2 characters rest
          exact ⟨rfl, behind⟩

namespace WrittenItem

/-- The operator and the operand are read off the token. -/
theorem Formed.readOperator {op : ItemOperator} {symbol : List (Char × List Char)}
    {operand : List Char} {p : PartialVersion} (formed : (comparator op symbol operand p).Formed) :
    Group.readOperator (symbol.map Prod.fst ++ operand) = (op, operand) := by
  obtain ⟨w, read⟩ := formed.2.2.exists_read?
  have whole := readOperator_item formed.1 read
  rwa [String.toList_ofList] at whole

theorem Formed.sharp {i : WrittenItem} (formed : i.Formed) (rest : List Char) :
    Sharp (i.chars ++ rest) := by
  cases i with
  | comparator op symbol operand p =>
      rw [chars, List.append_assoc]
      exact sharp_spread_append formed.operators ((solid_of_standsFor formed.2.2).sharp rest)
  | hyphen lower before after upper low high =>
      rw [chars, List.append_assoc]
      exact (solid_of_standsFor formed.1).sharp _

theorem eq_of_append {i j : WrittenItem} (formed : i.Formed) (otherFormed : j.Formed)
    (sameItem : i.item = j.item) {x y : List Char} (same : i.chars ++ x = j.chars ++ y) :
    i = j ∧ x = y := by
  cases i with
  | comparator op symbol operand p =>
      cases j with
      | hyphen => cases sameItem
      | comparator otherOp otherSymbol otherOperand otherP =>
          have token := Item.single.inj sameItem
          have reading := formed.readOperator
          rw [token, otherFormed.readOperator] at reading
          obtain ⟨rfl, rfl⟩ := Prod.mk.inj reading
          have characters := List.append_cancel_right token
          have solid := solid_of_standsFor formed.2.2
          rw [chars, chars, List.append_assoc, List.append_assoc] at same
          obtain ⟨rfl, rest⟩ := eq_of_spread_append formed.operators otherFormed.operators
            formed.2.1 otherFormed.2.1 characters (solid.sharp x) (solid.sharp y) same
          obtain rfl := formed.2.2.unique otherFormed.2.2
          exact ⟨rfl, List.append_cancel_left rest⟩
  | hyphen lower before after upper low high =>
      cases j with
      | comparator => cases sameItem
      | hyphen otherLower otherBefore otherAfter otherUpper otherLow otherHigh =>
          obtain ⟨rfl, rfl⟩ := Item.hyphen.inj sameItem
          obtain ⟨lowForm, ⟨-, beforeRun⟩, ⟨-, afterRun⟩, highForm⟩ := formed
          obtain ⟨otherLowForm, ⟨-, otherBeforeRun⟩, ⟨-, otherAfterRun⟩, otherHighForm⟩ :=
            otherFormed
          have upperSolid := solid_of_standsFor highForm
          simp only [chars, List.append_assoc, List.cons_append] at same
          obtain ⟨rfl, behindBefore⟩ := eq_of_run_append beforeRun otherBeforeRun
            (solid_hyphen.sharp _) (solid_hyphen.sharp _) (List.append_cancel_left same)
          obtain ⟨rfl, behindAfter⟩ := eq_of_run_append afterRun otherAfterRun
            (upperSolid.sharp x) (upperSolid.sharp y) (List.cons.inj behindBefore).2
          obtain rfl := lowForm.unique otherLowForm
          obtain rfl := highForm.unique otherHighForm
          exact ⟨rfl, List.append_cancel_left behindAfter⟩

end WrittenItem

section Unique

variable {entries others : List (WrittenItem × List Char)}

theorem sharp_entries (formed : ∀ entry ∈ entries, entry.1.Formed) :
    Sharp (entries.flatMap fun (item, run) => item.chars ++ run) := by
  cases entries with
  | nil => exact sharp_nil
  | cons entry rest =>
      rw [List.flatMap_cons, List.append_assoc]
      exact (formed entry List.mem_cons_self).sharp _

theorem eq_of_flatMap_eq (formed : ∀ entry ∈ entries, entry.1.Formed)
    (runs : ∀ entry ∈ entries, Spacing entry.2) (otherFormed : ∀ entry ∈ others, entry.1.Formed)
    (otherRuns : ∀ entry ∈ others, Spacing entry.2)
    (items : (entries.map fun entry => entry.1.item) = others.map fun entry => entry.1.item)
    (same : (entries.flatMap fun (item, run) => item.chars ++ run) =
      others.flatMap fun (item, run) => item.chars ++ run) : entries = others := by
  induction entries generalizing others with
  | nil => exact (List.map_eq_nil_iff.mp items.symm).symm
  | cons entry rest ih =>
      cases others with
      | nil => cases items
      | cons other others =>
          obtain ⟨i, run⟩ := entry
          obtain ⟨j, otherRun⟩ := other
          simp only [List.map_cons, List.cons.injEq] at items
          rw [List.forall_mem_cons] at formed runs otherFormed otherRuns
          simp only [List.flatMap_cons, List.append_assoc] at same
          obtain ⟨rfl, tails⟩ := WrittenItem.eq_of_append formed.1 otherFormed.1 items.1 same
          obtain ⟨rfl, behind⟩ := eq_of_run_append runs.1 otherRuns.1 (sharp_entries formed.2)
            (sharp_entries otherFormed.2) tails
          rw [ih formed.2 runs.2 otherFormed.2 otherRuns.2 items.2 behind]

end Unique

/-- A text has one rendering at most. -/
theorem WrittenGroup.Formed.unique {w other : WrittenGroup} (formed : w.Formed)
    (otherFormed : other.Formed) (same : w.chars = other.chars) : w = other := by
  have items : (w.items.map fun entry => entry.1.item) =
      other.items.map fun entry => entry.1.item := by
    rw [← formed.itemsOf_tokens w.chars, ← otherFormed.itemsOf_tokens w.chars, same]
  obtain ⟨lead, entries⟩ := w
  obtain ⟨otherLead, others⟩ := other
  obtain ⟨rfl, rest⟩ := eq_of_run_append formed.lead otherFormed.lead (sharp_entries formed.item)
    (sharp_entries otherFormed.item) same
  obtain rfl := eq_of_flatMap_eq formed.item formed.run otherFormed.item otherFormed.run items rest
  rfl

end Group

end VersionRange
