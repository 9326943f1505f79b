import VersionRange.Proofs.OneItem

/-!
# Replacing one operand of a group

A group that is read falls into items, and an operand in one of them can be replaced by
another text.  If the partial versions that the two texts are read as expand to comparators
that some map does not tell apart, then the map does not tell the two groups apart either.
-/

namespace VersionRange

open Fallible

namespace Group

/-- The tokens fall into items that expand to the comparators. -/
def Expands (options : ParseOptions) (tokens : List (List Char)) (found : List Comparator) :
    Prop :=
  ∃ (items : List Item) (expansions : List (List Comparator)), items.flatMap Item.tokens = tokens ∧
    items.mapM (Item.expand options) = .ok expansions ∧ expansions.flatten = found

section Items

variable {options : ParseOptions}

theorem Item.head?_tokens_ne_hyphen {item : Item} {found : List Comparator}
    (expands : item.expand options = .ok found) : item.tokens.head? ≠ some ['-'] := by
  have foreign (p : PartialVersion) : PartialVersion.parseChars ['-'] ≠ .ok p := by
    rintro ⟨⟩
  rcases Item.expand_cases expands with
    ⟨token, p, rfl, read, -⟩ | ⟨lower, upper, low, high, rfl, lowRead, -⟩
  · rintro ⟨⟩
    exact foreign p read
  · rintro ⟨⟩
    exact foreign low lowRead

theorem head?_flatMap_tokens_ne_hyphen {items : List Item}
    (expands : ∀ item ∈ items, ∃ found, item.expand options = .ok found) :
    (items.flatMap Item.tokens).head? ≠ some ['-'] := by
  cases items with
  | nil => simp
  | cons item rest =>
      obtain ⟨found, expansion⟩ := expands item List.mem_cons_self
      have start := Item.head?_tokens_ne_hyphen expansion
      cases item with
      | single token | hyphen lower upper => exact start
      | noLower _ | noUpper _ => cases expansion

/-- Items that expand are found again in their tokens. -/
theorem itemsOf_flatMap_tokens {items : List Item}
    (expands : ∀ item ∈ items, ∃ found, item.expand options = .ok found) (group : List Char) :
    itemsOf group (items.flatMap Item.tokens) = items := by
  induction items with
  | nil => rfl
  | cons item rest ih =>
      obtain ⟨⟨found, first⟩, others⟩ := List.forall_mem_cons.mp expands
      have start := Item.head?_tokens_ne_hyphen first
      have next := head?_flatMap_tokens_ne_hyphen others
      rw [List.flatMap_cons]
      cases item with
      | single token =>
          change itemsOf group (token :: rest.flatMap Item.tokens) = _
          rw [itemsOf, ih others]
          · rintro rfl
            exact start rfl
          · intro last
            exact next (by rw [last]; rfl)
          · intro upper tail last
            exact next (by rw [last]; rfl)
      | hyphen lower upper =>
          change itemsOf group (lower :: ['-'] :: upper :: rest.flatMap Item.tokens) = _
          rw [itemsOf, ih others]
          rintro rfl
          exact start rfl
      | noLower _ | noUpper _ => cases first

theorem parse_eq_ok_iff_expands {group : List Char} (notBlank : ¬allBlank group = true)
    {found : List Comparator} :
    parse options group = .ok found ↔ Expands options (tokens group) found := by
  constructor
  · intro read
    have complete := complete_of_expand (expands_of_parse read notBlank) group
    obtain ⟨expansions, expands, whole⟩ := (parse_eq_ok_iff_of_not_blank notBlank).mp read
    exact ⟨_, expansions, flatMap_tokens_itemsOf complete, expands, whole⟩
  · rintro ⟨items, expansions, same, expands, whole⟩
    rw [parse_eq_ok_iff_of_not_blank notBlank, ← same,
      itemsOf_flatMap_tokens (mapM_succeeds_iff.mp ⟨expansions, expands⟩)]
    exact ⟨expansions, expands, whole⟩

/-- A token of a group that is read is an operator and an operand, or the hyphen of an item. -/
theorem eq_hyphen_or_exists_symbol {tokens : List (List Char)} {found : List Comparator}
    (expands : Expands options tokens found) {token : List Char} (among : token ∈ tokens) :
    token = ['-'] ∨ ∃ symbol op operand w, (symbol, op) ∈ ItemOperator.symbols ∧
      token = symbol.toList ++ operand ∧ PartialVersion.Written.read? operand = some w := by
  have bare : ("", .primitive .equal) ∈ ItemOperator.symbols := by
    decide
  obtain ⟨items, expansions, rfl, each, -⟩ := expands
  obtain ⟨item, member, inside⟩ := List.mem_flatMap.mp among
  obtain ⟨expansion, expanded⟩ := mapM_succeeds_iff.mp ⟨expansions, each⟩ item member
  rcases Item.expand_cases expanded with
    ⟨whole, p, rfl, read, -⟩ | ⟨lower, upper, low, high, rfl, lowRead, highRead, -⟩
  · obtain rfl := List.mem_singleton.mp inside
    obtain ⟨symbol, known, split⟩ := exists_known_symbol token
    obtain ⟨w, form⟩ := PartialVersion.exists_read?_of_parseChars read
    exact .inr ⟨symbol, _, _, w, known, split, form⟩
  · simp only [Item.tokens, List.mem_cons, List.not_mem_nil, or_false] at inside
    rcases inside with rfl | rfl | rfl
    · obtain ⟨w, form⟩ := PartialVersion.exists_read?_of_parseChars lowRead
      exact .inr ⟨"", _, _, w, bare, rfl, form⟩
    · exact .inl rfl
    · obtain ⟨w, form⟩ := PartialVersion.exists_read?_of_parseChars highRead
      exact .inr ⟨"", _, _, w, bare, rfl, form⟩

end Items

/-- Each token stands in one of the items. -/
theorem exists_item_of_append {items : List Item} {front back : List (List Char)}
    {token : List Char} (same : items.flatMap Item.tokens = front ++ token :: back) :
    ∃ before item after a b, items = before ++ item :: after ∧ item.tokens = a ++ token :: b ∧
      front = before.flatMap Item.tokens ++ a ∧ back = b ++ after.flatMap Item.tokens := by
  induction items generalizing front with
  | nil => simp at same
  | cons item rest ih =>
      rw [List.flatMap_cons, List.append_eq_append_iff] at same
      rcases same with ⟨behind, rfl, rest'⟩ | ⟨inside, split, others⟩
      · obtain ⟨before, found, after, a, b, rfl, own, rfl, rfl⟩ := ih rest'
        exact ⟨item :: before, found, after, a, b, rfl, own, by simp, rfl⟩
      · cases inside with
        | nil =>
            have behind : rest.flatMap Item.tokens = [] ++ token :: back := others.symm
            obtain ⟨before, found, after, a, b, rfl, own, first, rfl⟩ := ih behind
            refine ⟨item :: before, found, after, a, b, rfl, own, ?_, rfl⟩
            simpa [split] using first
        | cons c inside =>
            obtain ⟨rfl, rfl⟩ := List.cons.inj others
            exact ⟨[], item, rest, front, inside, rfl, split, rfl, rfl⟩

/-- The token of an item can stand alone, or on either side of a hyphen, or be that hyphen. -/
theorem Item.cases_of_tokens {item : Item} {a b : List (List Char)} {token : List Char}
    (own : item.tokens = a ++ token :: b) :
    item = .single token ∧ a = [] ∧ b = [] ∨
      (∃ upper, item = .hyphen token upper ∧ a = [] ∧ b = [['-'], upper]) ∨
      (∃ lower upper, item = .hyphen lower upper ∧ token = ['-'] ∧ a = [lower] ∧ b = [upper]) ∨
      ∃ lower, item = .hyphen lower token ∧ a = [lower, ['-']] ∧ b = [] := by
  cases item with
  | single other =>
      obtain ⟨rfl, same⟩ := List.append_eq_singleton_iff.mp own.symm |>.resolve_right (by simp)
      obtain ⟨rfl, rfl⟩ := List.cons.inj same
      exact .inl ⟨rfl, rfl, rfl⟩
  | hyphen lower upper =>
      match a with
      | [] =>
          cases own
          simp
      | [_] =>
          cases own
          simp
      | [_, _] =>
          cases own
          simp
      | _ :: _ :: _ :: _ => simp [tokens] at own
  | noLower _ | noUpper _ => simp [tokens] at own

section Operand

variable {options : ParseOptions} {symbol : String} {op : ItemOperator} {text other : List Char}

/-- A partial version that is read has no operator in front. -/
theorem eq_of_parseChars_symbol {p : PartialVersion}
    (known : (symbol, op) ∈ ItemOperator.symbols)
    (read : PartialVersion.parseChars (symbol.toList ++ text) = .ok p) : symbol = "" := by
  obtain ⟨w, form⟩ := PartialVersion.exists_read?_of_parseChars read
  cases chars : symbol.toList with
  | nil => exact String.toList_eq_nil_iff.mp chars
  | cons c rest =>
      have inside : c ∈ symbol.toList := by simp [chars]
      have operator := isOperatorChar_of_mem_symbols known inside
      rw [not_isOperatorChar_of_read? form (List.mem_append_left text inside)] at operator
      cases operator

/-- Where the first outcome is a list of comparators, so is the second, and `f` does not
tell the two lists apart. -/
def Follows (f : Comparator → Comparator) (outcome other : Except Fault (List Comparator)) : Prop :=
  ∀ found, outcome = .ok found → ∃ changed, other = .ok changed ∧ changed.map f = found.map f

theorem follows_self (f : Comparator → Comparator) (outcome : Except Fault (List Comparator)) :
    Follows f outcome outcome :=
  fun found same => ⟨found, same, rfl⟩

/-- In whatever item the one partial version stands, the other may stand there as well. -/
structure Alike (options : ParseOptions) (f : Comparator → Comparator) (p q : PartialVersion) :
    Prop where
  item (op : ItemOperator) : Follows f (expandItem options op p) (expandItem options op q)
  lower (upper : PartialVersion) :
    Follows f (expandHyphen options p upper) (expandHyphen options q upper)
  upper {lower : PartialVersion} (readable : lower.Readable) :
    Follows f (expandHyphen options lower p) (expandHyphen options lower q)

theorem alike_self (f : Comparator → Comparator) (p : PartialVersion) : Alike options f p p where
  item _ := follows_self f _
  lower _ := follows_self f _
  upper _ := follows_self f _

/-- A text that is read as a partial version, and one that may stand in its place. -/
structure Replaces (options : ParseOptions) (f : Comparator → Comparator) (text other : List Char) :
    Prop where
  begins : ∃ c rest, text = c :: rest ∧
    (PartialVersion.isWildcardChar c = true ∨ c.isDigit = true ∨ c = 'v')
  reads : ∀ p, PartialVersion.parseChars text = .ok p →
    ∃ q, PartialVersion.parseChars other = .ok q ∧ Alike options f p q

variable {f : Comparator → Comparator} {found : List Comparator}

/-- Such a text begins neither like an operator nor like a hyphen. -/
theorem Replaces.exists_plain (replaces : Replaces options f text other) :
    ∃ c rest, text = c :: rest ∧ isOperatorChar c = false ∧ c ≠ '-' := by
  obtain ⟨c, rest, start, first⟩ := replaces.begins
  refine ⟨c, rest, start, ?_, ?_⟩
  · by_contra operator
    simp only [isOperatorChar, Bool.not_eq_false, Bool.or_eq_true, decide_eq_true_eq] at operator
    rcases operator with (((rfl | rfl) | rfl) | rfl) | rfl <;> revert first <;> decide
  · rintro rfl
    revert first
    decide

theorem readOperator_of_replaces (known : (symbol, op) ∈ ItemOperator.symbols)
    (replaces : Replaces options f text other) :
    readOperator (symbol.toList ++ text) = (op, text) := by
  obtain ⟨c, rest, rfl, plain, -⟩ := replaces.exists_plain
  exact readOperator_of_symbol known plain rest

theorem follows_expandToken (known : (symbol, op) ∈ ItemOperator.symbols)
    (replaces : Replaces options f text other) :
    Follows f (expandToken options (symbol.toList ++ text))
      (expandToken options (symbol.toList ++ other)) := by
  intro found expands
  rw [expandToken, readOperator_of_replaces known replaces, bind_eq_ok_iff] at expands
  obtain ⟨p, read, whole⟩ := expands
  obtain ⟨q, again, alike⟩ := replaces.reads p read
  obtain ⟨changed, expansion, same⟩ := alike.item op found whole
  obtain ⟨w, form⟩ := PartialVersion.exists_read?_of_parseChars again
  refine ⟨changed, ?_, same⟩
  rw [expandToken, readOperator_item known form]
  exact bind_eq_ok_iff.mpr ⟨q, again, expansion⟩

theorem Item.exists_of_operand {item : Item} {a b : List (List Char)}
    (known : (symbol, op) ∈ ItemOperator.symbols) (replaces : Replaces options f text other)
    (own : item.tokens = a ++ (symbol.toList ++ text) :: b)
    (expands : item.expand options = .ok found) :
    ∃ (changedItem : Item) (changed : List Comparator),
      changedItem.tokens = a ++ (symbol.toList ++ other) :: b ∧
        changedItem.expand options = .ok changed ∧ changed.map f = found.map f := by
  -- Beside a hyphen the partial version is all there is of the token.
  have bare {p : PartialVersion}
      (read : PartialVersion.parseChars (symbol.toList ++ text) = .ok p) :
      ∃ q, PartialVersion.parseChars (symbol.toList ++ other) = .ok q ∧ Alike options f p q := by
    obtain rfl := eq_of_parseChars_symbol known read
    exact replaces.reads p read
  rcases Item.cases_of_tokens own with ⟨rfl, rfl, rfl⟩ | ⟨upper, rfl, rfl, rfl⟩ |
    ⟨lower, upper, rfl, hyphen, rfl, rfl⟩ | ⟨lower, rfl, rfl, rfl⟩
  · obtain ⟨changed, expansion, same⟩ := follows_expandToken known replaces found expands
    exact ⟨.single _, changed, rfl, expansion, same⟩
  · obtain ⟨low, lowRead, others⟩ := bind_eq_ok_iff.mp expands
    obtain ⟨high, highRead, whole⟩ := bind_eq_ok_iff.mp others
    obtain ⟨q, again, alike⟩ := bare lowRead
    obtain ⟨changed, expansion, same⟩ := alike.lower high found whole
    exact ⟨.hyphen _ upper, changed, rfl, bind_eq_ok_iff.mpr
      ⟨q, again, bind_eq_ok_iff.mpr ⟨high, highRead, expansion⟩⟩, same⟩
  · have operand := readOperator_of_replaces known replaces
    obtain ⟨c, rest, start, -, notHyphen⟩ := replaces.exists_plain
    rw [hyphen, start] at operand
    cases operand
    exact absurd rfl notHyphen
  · obtain ⟨low, lowRead, others⟩ := bind_eq_ok_iff.mp expands
    obtain ⟨high, highRead, whole⟩ := bind_eq_ok_iff.mp others
    obtain ⟨q, again, alike⟩ := bare highRead
    have readable := PartialVersion.readable_of_parseChars lowRead
    obtain ⟨changed, expansion, same⟩ := alike.upper readable found whole
    exact ⟨.hyphen lower _, changed, rfl, bind_eq_ok_iff.mpr
      ⟨low, lowRead, bind_eq_ok_iff.mpr ⟨q, again, expansion⟩⟩, same⟩

/-- An item may be replaced by one whose comparators `f` does not tell from its own. -/
theorem expands_of_replaced {before after : List Item} {item changedItem : Item}
    {expansion changed : List Comparator} {expansions : List (List Comparator)}
    (each : (before ++ item :: after).mapM (Item.expand options) = .ok expansions)
    (old : item.expand options = .ok expansion) (new : changedItem.expand options = .ok changed)
    (same : changed.map f = expansion.map f) :
    ∃ all, Expands options
        (before.flatMap Item.tokens ++ (changedItem.tokens ++ after.flatMap Item.tokens)) all ∧
      all.map f = expansions.flatten.map f := by
  obtain ⟨first, own, last, front, expands, back, rfl⟩ := mapM_append_cons_eq_ok_iff.mp each
  obtain rfl := Except.ok.inj (old.symm.trans expands)
  have changedEach := mapM_append_cons_eq_ok_iff.mpr ⟨first, changed, last, front, new, back, rfl⟩
  exact ⟨(first ++ changed :: last).flatten,
    ⟨before ++ changedItem :: after, _, by simp, changedEach, rfl⟩, by simp [same]⟩

/-- One operand of a group is replaced. -/
theorem expands_of_operand {front back : List (List Char)}
    (known : (symbol, op) ∈ ItemOperator.symbols) (replaces : Replaces options f text other)
    (expands : Expands options (front ++ (symbol.toList ++ text) :: back) found) :
    ∃ changed, Expands options (front ++ (symbol.toList ++ other) :: back) changed ∧
      changed.map f = found.map f := by
  obtain ⟨items, expansions, same, each, rfl⟩ := expands
  obtain ⟨before, item, after, a, b, rfl, own, rfl, rfl⟩ := exists_item_of_append same
  obtain ⟨expansion, old⟩ := mapM_succeeds_iff.mp ⟨expansions, each⟩ item (by simp)
  obtain ⟨changedItem, changed, otherOwn, new, alike⟩ :=
    Item.exists_of_operand known replaces own old
  simpa [otherOwn] using expands_of_replaced each old new alike

end Operand

end Group

end VersionRange
