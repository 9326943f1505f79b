import VersionRange.Yaml.Layout

/-!
# The nodes of a YAML text

The tokens of a text make up a tree of scalars, sequences and mappings.  A node may
carry a tag, and an anchor by which later places repeat it.  Within the node itself its
anchor leads back to it.  A text holds one document or none.

Every function that descends into the tree takes a bound on the number of steps;
two steps for each token are enough.  How many levels it descends is limited as well.
-/

namespace VersionRange.Yaml

/-- A node.  Sequences and mappings are told apart by their places: the number of tokens
from there on. -/
inductive Node
  /-- A scalar.  Without a tag a plain one is resolved by its text, and any other is
  a text. -/
  | scalar (tag : Option String) (plain : Bool) (text : String)
  | sequence (place : Nat) (tag : Option String) (items : List Node)
  | mapping (place : Nat) (tag : Option String) (entries : List (Node × Node))
  /-- The sequence or mapping at a place, which this node stands inside of. -/
  | again (place : Nat) (container : JsonContainer)
  deriving Inhabited

/-- Where nothing is written. -/
def Node.empty : Node :=
  .scalar none true ""

/-- A scalar with the given tag.  A lone exclamation mark asks for resolution
by the text. -/
def Node.ofScalar (tag : Option String) (plain : Bool) (text : String) : Node :=
  if tag = some "!" then .scalar none true text else .scalar tag plain text

/-- What the tags of the standard begin with. -/
def standardTag : String := "tag:yaml.org,2002:"

/-- The tag handles that need no announcement. -/
def standardHandles : List (List Char × List Char) :=
  [(['!'], ['!']), (['!', '!'], standardTag.toList)]

/-- The state of reading nodes from tokens. -/
structure Composition where
  tokens : List Token
  /-- What comes of asking for more tokens than there are. -/
  fault : Option YamlFault
  handles : List (List Char × List Char)
  /-- The nodes with anchors.  One that has only begun is known by its place. -/
  anchors : List (List Char × Node)

/-- A step of reading nodes. -/
abbrev Composing := StateT Composition (Except YamlFault)

/-- Which nodes may stand at a place. -/
inductive NodeContext
  | flow
  | block
  /-- A block, or a sequence that is no deeper than the mapping around it. -/
  | entry
  deriving DecidableEq

namespace Composing

def malformed {α : Type} : Composing α :=
  throw .malformed

/-- The next token; none at the end of the text. -/
def next : Composing (Option Token) := do
  let state ← get
  match state.tokens, state.fault with
  | [], some fault => throw fault
  | tokens, _ => return tokens.head?

def skip : Composing Unit :=
  modify fun state => { state with tokens := state.tokens.tail }

/-- Reads a node, unless nothing is written in front of one of the given tokens. -/
def orEmpty (before : List Token) (read : Composing Node) : Composing Node := do
  match ← next with
  | some token => if before.contains token then return .empty else read
  | none => read

def readAnchorName : Composing (Option (List Char)) := do
  match ← next with
  | some (.anchor name) =>
    skip
    return some name
  | _ => return none

def readTag : Composing (Option (Option (List Char) × List Char)) := do
  match ← next with
  | some (.tag handle suffix) =>
    skip
    return some (handle, suffix)
  | _ => return none

/-- The name of a tag, whose handle must be known. -/
def tagName : Option (List Char) × List Char → Composing String
  | (none, suffix) => return String.ofList suffix
  | (some handle, suffix) => do
    match (← get).handles.lookup handle with
    | some text => return String.ofList (text ++ suffix)
    | none => malformed

/-- Reads an anchor and a tag, in either order. -/
def readProperties : Composing (Option (List Char) × Option String) := do
  let first ← readAnchorName
  let tag ← readTag
  let anchor ← if first.isNone && tag.isSome then readAnchorName else pure first
  return (anchor, ← tag.mapM tagName)

/-- Gives a name to the node that begins here.  A name is given only once. -/
def openAnchor (anchor : Option (List Char)) (begun : Node) : Composing Unit := do
  if let some name := anchor then
    if ((← get).anchors.lookup name).isSome then malformed
    modify fun state => { state with anchors := (name, begun) :: state.anchors }

def closeAnchor (anchor : Option (List Char)) (node : Node) : Composing Unit := do
  if let some name := anchor then
    modify fun state => { state with anchors := (name, node) :: state.anchors }

/-- The node with a name. -/
def anchored (name : List Char) : Composing Node := do
  match (← get).anchors.lookup name with
  | some node => return node
  | none => malformed

/-- The place of what begins here. -/
def place : Composing Nat := do
  return (← get).tokens.length

/-- One level further down, as long as there is one. -/
def descend : Nat → Composing Nat
  | 0 => throw (.badValue (.depth .following))
  | levels + 1 => return levels

/-- A sequence or mapping that begins with a token, as long as it has not ended. -/
def begun (place : Nat) : Option Token → Node
  | some .flowMappingStart | some .blockMappingStart => .again place .object
  | _ => .again place .list

/-- What may follow an entry of a block sequence, an entry of a sequence that is no
deeper than the mapping around it, and a key or a value of a block mapping. -/
def afterEntry : List Token := [.blockEntry, .blockEnd]

def afterFlatEntry : List Token := [.blockEntry, .key, .value, .blockEnd]

def afterPart : List Token := [.key, .value, .blockEnd]

mutual

/-- Reads a node, which may reach down `levels` levels. -/
def readNode : Nat → Nat → NodeContext → Composing Node
  | 0, _, _ => malformed
  | steps + 1, levels, context => do
    let levels ← descend levels
    if let some (.alias name) := ← next then
      skip
      return ← anchored name
    let (anchor, tag) ← readProperties
    let content ← next
    let place ← place
    openAnchor anchor (begun place content)
    let tagged := if tag = some "!" then none else tag
    let node ← match content with
      | some (.scalar text plain) => do
        skip
        pure (Node.ofScalar tag plain (String.ofList text))
      | some .flowSequenceStart => do
        skip
        pure (Node.sequence place tagged (← readFlowItems steps levels true))
      | some .flowMappingStart => do
        skip
        pure (Node.mapping place tagged (← readFlowEntries steps levels true))
      | some .blockSequenceStart => do
        if context = .flow then malformed
        skip
        pure (Node.sequence place tagged (← readBlockItems steps levels))
      | some .blockMappingStart => do
        if context = .flow then malformed
        skip
        pure (Node.mapping place tagged (← readBlockEntries steps levels))
      | other =>
        if other = some .blockEntry && context = .entry then do
          pure (Node.sequence place tagged (← readFlatItems steps levels))
        else if anchor.isSome || tag.isSome then pure (Node.ofScalar tag true "")
        else malformed
    closeAnchor anchor node
    return node

/-- Reads the entries of a block sequence up to its end. -/
def readBlockItems : Nat → Nat → Composing (List Node)
  | 0, _ => malformed
  | steps + 1, levels => do
    match ← next with
    | some .blockEntry =>
      skip
      let item ← orEmpty afterEntry (readNode steps levels .block)
      return item :: (← readBlockItems steps levels)
    | some .blockEnd =>
      skip
      return []
    | _ => malformed

/-- Reads the entries of a sequence that is no deeper than the mapping around it. -/
def readFlatItems : Nat → Nat → Composing (List Node)
  | 0, _ => malformed
  | steps + 1, levels => do
    match ← next with
    | some .blockEntry =>
      skip
      let item ← orEmpty afterFlatEntry (readNode steps levels .block)
      return item :: (← readFlatItems steps levels)
    | _ => return []

/-- Reads the entries of a block mapping up to its end. -/
def readBlockEntries : Nat → Nat → Composing (List (Node × Node))
  | 0, _ => malformed
  | steps + 1, levels => do
    match ← next with
    | some .key =>
      skip
      let key ← orEmpty afterPart (readNode steps levels .entry)
      let value ← match ← next with
        | some .value => do
          skip
          orEmpty afterPart (readNode steps levels .entry)
        | _ => pure .empty
      return (key, value) :: (← readBlockEntries steps levels)
    | some .blockEnd =>
      skip
      return []
    | _ => malformed

/-- Reads the value behind a key between brackets that `closing` closes. -/
def readFlowValue : Nat → Nat → Token → Composing Node
  | 0, _, _ => malformed
  | steps + 1, levels, closing => do
    match ← next with
    | some .value =>
      skip
      orEmpty [.flowEntry, closing] (readNode steps levels .flow)
    | _ => return .empty

/-- Reads the items of a flow sequence up to its end.  A key among them makes up a
mapping with one entry. -/
def readFlowItems : Nat → Nat → Bool → Composing (List Node)
  | 0, _, _ => malformed
  | steps + 1, levels, first => do
    if (← next) = some .flowSequenceEnd then
      skip
      return []
    if !first then
      if (← next) ≠ some .flowEntry then malformed
      skip
    match ← next with
    | some .flowSequenceEnd =>
      skip
      return []
    | some .key =>
      let place ← place
      let inner ← descend levels
      skip
      let key ← orEmpty [.value, .flowEntry, .flowSequenceEnd] (readNode steps inner .flow)
      let value ← readFlowValue steps inner .flowSequenceEnd
      return .mapping place none [(key, value)] :: (← readFlowItems steps levels false)
    | _ =>
      let item ← readNode steps levels .flow
      return item :: (← readFlowItems steps levels false)

/-- Reads the entries of a flow mapping up to its end. -/
def readFlowEntries : Nat → Nat → Bool → Composing (List (Node × Node))
  | 0, _, _ => malformed
  | steps + 1, levels, first => do
    if (← next) = some .flowMappingEnd then
      skip
      return []
    if !first then
      if (← next) ≠ some .flowEntry then malformed
      skip
    match ← next with
    | some .flowMappingEnd =>
      skip
      return []
    | some .key =>
      skip
      let key ← orEmpty [.value, .flowEntry, .flowMappingEnd] (readNode steps levels .flow)
      let value ← readFlowValue steps levels .flowMappingEnd
      return (key, value) :: (← readFlowEntries steps levels false)
    | _ =>
      let key ← readNode steps levels .flow
      return (key, .empty) :: (← readFlowEntries steps levels false)

end

/-- Takes the directives in front of a document.  There is at most one about the
version, whose major number must be 1, and one for each tag handle. -/
def readDirectives : Nat → Bool → Composing Unit
  | 0, _ => return
  | steps + 1, versioned => do
    match ← next with
    | some (.directive directive) =>
      skip
      match directive with
      | .version major =>
        if versioned || major ≠ 1 then malformed
        readDirectives steps true
      | .handle name text =>
        if ((← get).handles.lookup name).isSome then malformed
        modify fun state => { state with handles := (name, text) :: state.handles }
        readDirectives steps versioned
      | .unknown => readDirectives steps versioned
    | _ => return

/-- Whether the content of a document that began with dashes is left out. -/
def endsDocument : Option Token → Bool
  | none | some .documentStart | some .documentEnd | some (.directive _) => true
  | _ => false

/-- Reads what stands behind the document: marks of its end, and no other document. -/
def readEnd : Nat → Composing Unit
  | 0 => malformed
  | steps + 1 => do
    match ← next with
    | none => return
    | some .documentEnd =>
      skip
      readEnd steps
    | some _ =>
      modify fun state => { state with handles := [] }
      readDirectives steps false
      let _ ← next
      malformed

/-- Reads the only document, if there is one. -/
def readDocument (levels : Nat) : Composing (Option Node) := do
  let steps := 2 * (← get).tokens.length + 2
  let node ← match ← next with
    | none => return none
    | some .documentStart | some (.directive _) => do
      readDirectives steps false
      if (← next) ≠ some .documentStart then malformed
      skip
      modify fun state => { state with handles := state.handles ++ standardHandles }
      if endsDocument (← next) then pure Node.empty else readNode steps levels .block
    | some _ => do
      modify fun state => { state with handles := standardHandles }
      readNode steps levels .block
  readEnd steps
  return some node

end Composing

/-- A document. -/
structure Tree where
  root : Node
  /-- The nodes with anchors, to which nodes inside of them lead back. -/
  anchored : List Node

/-- The only document of a text, if there is one, which may be `levels` levels deep. -/
def Tree.ofTokens (levels : Nat) (stream : TokenStream) : Except YamlFault (Option Tree) := do
  let (root, state) ← (Composing.readDocument levels).run ⟨stream.tokens, stream.fault, [], []⟩
  return root.map fun root => ⟨root, state.anchors.map Prod.snd⟩

/-- How many levels a document may be deep, where nothing else is said. -/
def levelLimit : Nat := 485

end VersionRange.Yaml
