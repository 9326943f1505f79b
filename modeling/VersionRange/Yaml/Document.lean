import VersionRange.Text.Base64
import VersionRange.Yaml.Node
import VersionRange.Yaml.Resolution

/-!
# Values of YAML texts

The tree of a text becomes a value.  Outer nodes become values before inner ones, so
of several faults the one that lies least deep counts, and of those that lie equally
deep the first.

Every function that descends into the tree takes a bound on the number of steps; four
steps for each token are enough.
-/

namespace VersionRange.Yaml

/-- What becomes of a node: a value, or a fault and how deep it lies. -/
abbrev Outcome (α : Type) := Except (Nat × YamlFault) α

namespace Outcome

def malformed {α : Type} : Outcome α :=
  .error (0, .malformed)

/-- An outcome one level further down. -/
def deeper {α : Type} : Outcome α → Outcome α
  | .ok value => .ok value
  | .error (depth, fault) => .error (depth + 1, fault)

/-- Both outcomes, or the fault that counts. -/
def both {α β : Type} : Outcome α → Outcome β → Outcome (α × β)
  | .ok a, .ok b => .ok (a, b)
  | .error fault, .ok _ => .error fault
  | .ok _, .error fault => .error fault
  | .error (m, fault), .error (n, other) =>
    if n < m then .error (n, other) else .error (m, fault)

/-- All the outcomes, or the fault that counts. -/
def all {α : Type} : List (Outcome α) → Outcome (List α)
  | [] => .ok []
  | first :: rest => (both first (all rest)).map fun (a, as) => a :: as

def ofFault {α : Type} : Except Fault α → Outcome α
  | .ok value => .ok value
  | .error fault => .error (0, .badValue fault)

def ofOption {α : Type} : Option α → Outcome α
  | some value => .ok value
  | none => malformed

end Outcome

/-- The name of a tag of the standard; no name for every other tag. -/
def standardName (tag : String) : String :=
  if standardTag.toList.isPrefixOf tag.toList then
    String.ofList (tag.toList.drop standardTag.length)
  else ""

/-- The tags of the standard for scalars. -/
def scalarTags : List String := ["str", "null", "bool", "int", "float", "binary", "timestamp"]

/-- The tags of the standard for sequences and mappings. -/
def collectionTags : List String := ["seq", "omap", "pairs", "map", "set"]

/-- The name of the tag of a node, where one without a tag is resolved. -/
def Node.tagName : Node → String
  | scalar none true text =>
    if text = "<<" then "merge" else if text = "=" then "value" else ""
  | scalar none false _ => "str"
  | sequence _ none _ => "seq"
  | mapping _ none _ => "map"
  | scalar (some tag) .. | sequence _ (some tag) _ | mapping _ (some tag) _ => standardName tag
  | again .. => ""

/-- Whether a node is the key under which other mappings are merged. -/
def Node.isMerge (node : Node) : Bool :=
  node.tagName == "merge"

/-- Whether a node is the key of the value that a mapping has by default. -/
def Node.isDefault (node : Node) : Bool :=
  node.tagName == "value"

/-- The sequence or mapping at a place. -/
def Node.isAt (place : Nat) : Node → Bool
  | sequence own .. | mapping own .. => own == place
  | _ => false

/-- A node, with the way back to one around it followed. -/
def Node.entered (anchored : List Node) : Node → Node
  | again place container =>
    (anchored.find? (Node.isAt place)).getD (again place container)
  | node => node

/-- The value of a plain scalar without a tag. -/
def plainValue (text : String) : Outcome Value :=
  match meaning text with
  | .ok (.value value) => .ok value
  | .ok .merge | .ok .default => .malformed
  | .error fault => .error (0, .badValue fault)

/-- The text without a line end behind it. -/
def dropLineEnd (chars : List Char) : List Char :=
  if chars.getLast? = some '\n' then chars.dropLast else chars

/-- The value of a text with a tag of the standard for scalars.  The text should be one that
the tag is for. -/
def taggedValue (tag text : String) : Outcome Value :=
  match tag with
  | "str" => .ok (.text text)
  | "null" => .ok .null
  | "bool" =>
    let word := String.ofList (text.toList.map Char.toLower)
    match truthWords.lookup word with
    | some b => .ok (.bool b)
    | none => .ofFault (.error (.badTruthValue word))
  | "int" => .ofFault ((integerOf text.toList).map .int)
  | "float" => .ofFault ((floatOf text.toList).map .float)
  | "binary" =>
    if text.toList.all fun c => c.toNat < 0x80 then
      .ofOption ((decodeBase64 text.toList).map .bytes)
    else .malformed
  | "timestamp" =>
    match moment? true (dropLineEnd text.toList) with
    | some value => .ofFault value
    | none => .ofFault (.error .badMoment)
  | _ => .malformed

/-- The text of a node that is to be a scalar.  A mapping has that of its value by default;
`around` are the places of the mappings that have this one for such a value. -/
def scalarText : Nat → List Nat → Node → Outcome String
  | 0, _, _ => .malformed
  | steps + 1, around, node =>
    match node with
    | .scalar _ _ text => .ok text
    | .sequence .. => .malformed
    | .mapping place _ entries =>
      match entries.find? fun entry => entry.1.isDefault with
      | some (_, value) => scalarText steps (place :: around) value
      | none => .malformed
    | .again place _ =>
      if around.contains place then .error (0, .badValue (.depth .following)) else .malformed

/-- The value of a node that is to be a scalar.  In a mapping no date is looked for. -/
def scalarValue (steps : Nat) (node : Node) : Outcome Value :=
  match node with
  | .scalar none plain text => if plain then plainValue text else .ok (.text text)
  | .scalar (some tag) _ text => taggedValue (standardName tag) text
  | node =>
    if scalarTags.contains node.tagName then do
      let text ← scalarText steps [] node
      if node.tagName = "timestamp" then .ofFault (.error (.sort (.notSearchable "list")))
      else taggedValue node.tagName text
    else .malformed

/-- The value of a node as a key.  The key of a default value is a text here. -/
def keyValue (steps : Nat) (node : Node) : Outcome Value :=
  if node.isDefault then (scalarText steps [] node).map .text else scalarValue steps node

/-- The entries of a mapping: first those of the mappings that are merged into it, then its
own.  Where the mappings in `busy` turn up again, no more is merged into them. -/
def entriesOf (anchored : List Node) : Nat → List Nat → Node → Option (List (Node × Node))
  | 0, _, _ => none
  | steps + 1, busy, node =>
    match node.entered anchored with
    | .mapping place _ entries => do
      let own := entries.filter fun entry => !entry.1.isMerge
      if busy.contains place then return own
      let merging := entriesOf anchored steps (place :: busy)
      let merged ← (entries.filter fun entry => entry.1.isMerge).mapM fun entry =>
        match entry.2.entered anchored with
        -- Of the mappings in a sequence the first counts most, so its entries come last.
        | .sequence _ _ items => (items.reverse.mapM merging).map List.flatten
        | other => merging other
      return merged.flatten ++ own
    | _ => none

/-- Entries of which a later one at the same key replaces an earlier one. -/
def joined (entries : List (Value × Value)) : List (Value × Value) :=
  entries.foldl (fun all (key, value) => Value.setEntry key value all) []

/-- The entry of two nodes, of which the second is read by `inner`. -/
def entryOf (steps : Nat) (inner : Node → Outcome Value) (entry : Node × Node) :
    Outcome (Value × Value) :=
  Outcome.both (keyValue steps entry.1) (inner entry.2)

/-- The pair that a mapping with one entry stands for. -/
def pairOf (inner : Node → Outcome Value) : Node → Outcome Value
  | .mapping _ _ [(key, value)] =>
    (Outcome.both (inner key) (inner value)).map fun (key, value) => .pair key value
  | _ => .malformed

/-- The value of a node inside of the sequences and mappings at the places `around`. -/
def valueOf (anchored : List Node) : Nat → List Nat → Node → Outcome Value
  | 0, _, _ => .malformed
  | steps + 1, around, node =>
    match node with
    | .scalar .. =>
      if collectionTags.contains node.tagName then Outcome.malformed.deeper
      else scalarValue steps node
    | .again place container =>
      if around.contains place then .ok (.again container)
      else
        match anchored.find? (Node.isAt place) with
        | some found => valueOf anchored steps around found
        | none => .malformed
    | .sequence place _ items =>
      if around.contains place then .ok (.again .list)
      else
        let inner := valueOf anchored steps (place :: around)
        match node.tagName with
        | "seq" => Outcome.deeper ((Outcome.all (items.map inner)).map .list)
        | "omap" | "pairs" =>
          let pair item := pairOf inner (item.entered anchored)
          Outcome.deeper ((Outcome.all (items.map pair)).map .list)
        | "map" | "set" => Outcome.malformed.deeper
        | _ => .malformed
    | .mapping place _ _ =>
      if around.contains place then .ok (.again .object)
      else
        let inner := valueOf anchored steps (place :: around)
        let entries : Outcome (List (Value × Value)) := do
          let entries ← Outcome.ofOption (entriesOf anchored steps [] node)
          joined <$> Outcome.all (entries.map (entryOf steps inner))
        match node.tagName with
        | "map" => Outcome.deeper (entries.map .object)
        | "set" => Outcome.deeper (entries.map fun found => .set (found.map Prod.fst))
        | "seq" | "omap" | "pairs" => Outcome.malformed.deeper
        | _ => scalarValue steps node

/-- Reads a text as YAML, `levels` levels deep; a text without a document stands for
nothing. -/
def readCharsWithin (levels : Nat) (chars : List Char) : Except YamlFault Value := do
  let stream := TokenStream.ofChars chars
  match ← Tree.ofTokens levels stream with
  | none => return .null
  | some tree =>
    (valueOf tree.anchored (4 * stream.tokens.length + 4) [] tree.root).mapError Prod.snd

def readChars : List Char → Except YamlFault Value :=
  readCharsWithin levelLimit

end VersionRange.Yaml
