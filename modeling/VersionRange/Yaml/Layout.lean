import VersionRange.Yaml.Token

/-!
# From layout to tokens

Outside brackets the structure of YAML is given by columns.  A block begins where
something stands deeper than the block around it, and ends where something stands
less deep.  That something is a key shows only at the colon behind it, so every
token that might begin a key is remembered as a candidate, and the tokens that
announce the key are put in front of it later.

The tokens of a text are told up to the first place where the text goes wrong.  What
they make up is looked at on the way, so a fault counts only where the tokens in front
of it leave nothing to find fault with.
-/

namespace VersionRange.Yaml

/-- A place where a key may have begun. -/
structure Candidate where
  /-- The number of tokens in front of it. -/
  token : Nat
  /-- Nothing but a key can stand there. -/
  required : Bool
  place : Place

/-- The longest distance between the front of a key and its colon. -/
def keyLimit : Nat := 1024

/-- Whether a candidate is too far away from a place: a key stands on one line. -/
def Candidate.isStale (here : Place) (c : Candidate) : Bool :=
  c.place.line != here.line || keyLimit < here.index - c.place.index

/-- The state of cutting a text into tokens. -/
structure Layout where
  place : Place
  tokens : List Token
  /-- The column of the innermost block; one less than zero outside of all blocks. -/
  indent : Int
  /-- The columns of the blocks around it. -/
  indents : List Int
  /-- A key may begin here. -/
  keyAllowed : Bool
  candidate : Option Candidate
  /-- The candidates outside of the innermost brackets, one for each pair of
  brackets around. -/
  outer : List (Option Candidate)

def Layout.start (chars : List Char) : Layout :=
  ⟨Place.start chars, [], -1, [], true, none, []⟩

/-- Whether the place is between brackets. -/
def Layout.inFlow (layout : Layout) : Bool :=
  !layout.outer.isEmpty

/-- The tokens to which nothing can be added: those in front of all candidates that may
still turn out to be keys. -/
def Layout.settled (layout : Layout) : List Token :=
  let pending := (layout.candidate :: layout.outer).filterMap fun c =>
    c.filter fun c => !c.isStale layout.place
  layout.tokens.take ((pending.map Candidate.token).foldl min layout.tokens.length)

/-- A step of cutting. -/
abbrev Cutting := StateT Layout (Except YamlFault)

namespace Cutting

def malformed {α : Type} : Cutting α :=
  throw .malformed

/-- Reads on from the place. -/
def reading {α : Type} (read : Reading α) : Cutting α := do
  let layout ← get
  match read.run layout.place with
  | .ok (result, place) =>
    set { layout with place := place }
    return result
  | .error fault => throw fault

def emit (token : Token) : Cutting Unit :=
  modify fun layout => { layout with tokens := layout.tokens ++ [token] }

def allowKey (allowed : Bool) : Cutting Unit :=
  modify fun layout => { layout with keyAllowed := allowed }

/-- Begins a block at a column that is deeper than the block around it. -/
def beginBlock (column : Nat) : Cutting Bool := do
  let layout ← get
  if layout.indent < column then
    set { layout with indent := column, indents := layout.indent :: layout.indents }
    return true
  else return false

/-- Ends the blocks that are deeper than the column. -/
def endBlocks (column : Int) : Cutting Unit :=
  modify fun layout =>
    if layout.inFlow then layout
    else
      let deeper := (layout.indent :: layout.indents).takeWhile (column < ·)
      let rest := (layout.indent :: layout.indents).dropWhile (column < ·)
      { layout with
        tokens := layout.tokens ++ List.replicate deeper.length .blockEnd
        indent := rest.headD (-1)
        indents := rest.tail }

/-- Forgets the candidate, which must not be one that has to be a key. -/
def dropCandidate : Cutting Unit := do
  let layout ← get
  if layout.candidate.any Candidate.required then malformed
  set { layout with candidate := none }

/-- Remembers the place as a candidate, if a key may begin here. -/
def noteCandidate : Cutting Unit := do
  let layout ← get
  if layout.keyAllowed then
    let required := !layout.inFlow && layout.indent == (layout.place.column : Int)
    dropCandidate
    modify fun layout =>
      { layout with candidate := some ⟨layout.tokens.length, required, layout.place⟩ }

/-- Forgets the candidates that are too far away. -/
def dropStale : Cutting Unit := do
  let layout ← get
  let stale := Candidate.isStale layout.place
  if (layout.candidate :: layout.outer).any fun c => c.any fun c => stale c && c.required then
    malformed
  let recent (c : Option Candidate) := c.filter fun c => !stale c
  set { layout with candidate := recent layout.candidate, outer := layout.outer.map recent }

/-- Skips spaces, comments and line ends.  Outside of brackets a key may begin on a
new line. -/
def skipBlank : Nat → Cutting Unit
  | 0 => return
  | steps + 1 => do
    reading (Reading.skipWhile (· = ' '))
    reading Reading.skipComment
    if (← reading Reading.lineBreak).isEmpty then return
    if !(← get).inFlow then allowKey true
    skipBlank steps

/-- A token that may begin a key. -/
def keyFront (read : Reading Token) : Cutting Unit := do
  noteCandidate
  allowKey false
  emit (← reading read)

/-- A directive or a document separator, which ends all blocks. -/
def separator (read : Reading Token) : Cutting Unit := do
  endBlocks (-1)
  dropCandidate
  allowKey false
  emit (← reading read)

/-- Skips an indicator. -/
def indicator (token : Token) : Reading Token := do
  Reading.forward 1
  return token

/-- Skips the marks of a document separator. -/
def separatorMarks (token : Token) : Reading Token := do
  Reading.forward 3
  return token

/-- An opening bracket. -/
def openFlow (token : Token) : Cutting Unit := do
  noteCandidate
  modify fun layout =>
    { layout with outer := layout.candidate :: layout.outer, candidate := none }
  allowKey true
  emit (← reading (indicator token))

/-- A closing bracket, which needs an opening one. -/
def closeFlow (token : Token) : Cutting Unit := do
  dropCandidate
  let layout ← get
  match layout.outer with
  | [] => malformed
  | candidate :: outer =>
    set { layout with candidate := candidate, outer := outer }
    allowKey false
    emit (← reading (indicator token))

def flowEntry : Cutting Unit := do
  allowKey true
  dropCandidate
  emit (← reading (indicator .flowEntry))

/-- Outside of brackets, begins the block that an indicator belongs to. -/
def blockIndicator (start : Token) : Cutting Unit := do
  let layout ← get
  if !layout.inFlow then
    if !layout.keyAllowed then malformed
    if ← beginBlock layout.place.column then emit start

/-- The dash in front of an entry. -/
def blockEntry : Cutting Unit := do
  blockIndicator .blockSequenceStart
  allowKey true
  dropCandidate
  emit (← reading (indicator .blockEntry))

/-- The question mark in front of a key. -/
def explicitKey : Cutting Unit := do
  blockIndicator .blockMappingStart
  allowKey (!(← get).inFlow)
  dropCandidate
  emit (← reading (indicator .key))

/-- The colon in front of a value.  The candidate, if there is one, is a key. -/
def value : Cutting Unit := do
  match (← get).candidate with
  | some c =>
    let begins ← if (← get).inFlow then pure false else beginBlock c.place.column
    modify fun layout =>
      { layout with
        candidate := none
        keyAllowed := false
        tokens := layout.tokens.take c.token ++ (if begins then [.blockMappingStart] else []) ++
          .key :: layout.tokens.drop c.token }
  | none =>
    blockIndicator .blockMappingStart
    allowKey (!(← get).inFlow)
    dropCandidate
  emit (← reading (indicator .value))

/-- A block scalar. -/
def blockScalar (folded : Bool) : Cutting Unit := do
  allowKey true
  dropCandidate
  let indent := (← get).indent
  emit (.scalar (← reading (readBlock folded indent)) false)

def quotedScalar (double : Bool) : Reading Token := do
  return .scalar (← readQuoted double) false

/-- A plain scalar; if it ends with a line, a key may follow. -/
def plainScalar : Cutting Unit := do
  noteCandidate
  let layout ← get
  let (text, atLine) ← reading (readPlain layout.inFlow (layout.indent + 1))
  allowKey atLine
  emit (.scalar text true)

/-- The indicators that cannot begin a plain scalar, except before a word. -/
def indicators : List Char :=
  "-?:,[]\x7b\x7d#&*!|>'\"%@\x60".toList

/-- Whether a plain scalar begins with `c`, where `next` follows. -/
def startsPlain (inFlow : Bool) (c : Char) (next : Option Char) : Bool :=
  (!endsWord (some c) && !indicators.contains c) ||
    (!endsWord next && (c = '-' || (!inFlow && (c = '?' || c = ':'))))

/-- Reads the next token, if there is one. -/
def step : Cutting Bool := do
  skipBlank ((← get).place.rest.length + 1)
  dropStale
  endBlocks (← get).place.column
  let layout ← get
  let atFront := layout.place.column == 0
  let next := (layout.place.rest.drop 1).head?
  let startsEntry := layout.inFlow || endsWord next
  match layout.place.rest with
  | [] =>
    endBlocks (-1)
    dropCandidate
    return false
  | c :: _ =>
    if c = '%' && atFront then separator (Token.directive <$> readDirective)
    else if atFront && isSeparator '-' layout.place.rest then
      separator (separatorMarks .documentStart)
    else if atFront && isSeparator '.' layout.place.rest then
      separator (separatorMarks .documentEnd)
    else if c = '[' then openFlow .flowSequenceStart
    else if c = '\x7b' then openFlow .flowMappingStart
    else if c = ']' then closeFlow .flowSequenceEnd
    else if c = '\x7d' then closeFlow .flowMappingEnd
    else if c = ',' then flowEntry
    else if c = '-' && endsWord next then blockEntry
    else if c = '?' && startsEntry then explicitKey
    else if c = ':' && startsEntry then value
    else if c = '*' then keyFront (Token.alias <$> readAnchor)
    else if c = '&' then keyFront (Token.anchor <$> readAnchor)
    else if c = '!' then keyFront readTag
    else if c = '|' && !layout.inFlow then blockScalar false
    else if c = '>' && !layout.inFlow then blockScalar true
    else if c = '\'' then keyFront (quotedScalar false)
    else if c = '"' then keyFront (quotedScalar true)
    else if startsPlain layout.inFlow c next then plainScalar
    else malformed
    return true

end Cutting

/-- The tokens of a text up to its end or, if there is a fault, up to what is settled
where it lies. -/
structure TokenStream where
  tokens : List Token
  fault : Option YamlFault

/-- The tokens from here on, taken step by step. -/
def Layout.stream : Nat → Layout → TokenStream
  | 0, layout => ⟨layout.tokens, none⟩
  | steps + 1, layout =>
    match Cutting.step.run layout with
    | .ok (true, next) => stream steps next
    | .ok (false, last) => ⟨last.tokens, none⟩
    | .error fault => ⟨layout.settled, some fault⟩

/-- The code point ranges of the characters that may stand in a YAML text. -/
def textRanges : List (Nat × Nat) :=
  [(0x9, 0xA), (0xD, 0xD), (0x20, 0x7E), (0x85, 0x85), (0xA0, 0xD7FF), (0xE000, 0xFFFD),
   (0x10000, 0x10FFFF)]

/-- The tokens of a text.  A byte order mark in front is skipped. -/
def TokenStream.ofChars (chars : List Char) : TokenStream :=
  if !chars.all (inRanges textRanges) then ⟨[], some .malformed⟩
  else
    let start := Layout.start chars
    let start :=
      if chars.head? = some '\uFEFF' then { start with place := start.place.next } else start
    start.stream (chars.length + 1)

end VersionRange.Yaml
