import GrammarAudit.Json.Basic
import GrammarAudit.Yaml.Node

/-!
# Values of a document

What a document stands for: scalars, sequences and mappings. An alias stands for the node of its
anchor, and the merge key of a mapping for the entries of other mappings.

- `Value`: the value of a document.
- `Node.expand`: a node with its aliases replaced.
- `Value.ofNode`, `Value.ofText`: the value of a node and of a document.
- `Value.toJson?`: a value as JSON has it.
-/

namespace GrammarAudit.Yaml

/-- The value of a document. The entries of a mapping keep their order. -/
inductive Value where
  | scalar (s : Scalar)
  | sequence (items : List Value)
  | mapping (entries : List (Scalar × Value))
deriving Repr, Inhabited

/-! ## Aliases -/

/-- The nodes that anchors name. -/
abbrev Anchors := List (String × Node)

mutual

/-- A node without anchors and aliases, and the anchors known after it. A name is given only once.
An alias inside the node that it names stands for an empty sequence. -/
def Node.expand (known : Anchors) : Node → Except Fault (Node × Anchors)
  | .scalar text isPlain => .ok (.scalar text isPlain, known)
  | .sequence items => do
    let (items, known) ← expandItems known items
    return (.sequence items, known)
  | .mapping entries => do
    let (entries, known) ← expandEntries known entries
    return (.mapping entries, known)
  | .tagged tag node => do
    let (node, known) ← node.expand known
    return (.tagged tag node, known)
  | .anchored name node => do
    if (known.lookup name).isSome then .error .malformed
    else
      let (node, known) ← node.expand ((name, .sequence []) :: known)
      return (node, (name, node) :: known)
  | .alias name =>
    match known.lookup name with
    | some node => .ok (node, known)
    | none => .error .malformed

/-- Items without anchors and aliases. -/
def expandItems (known : Anchors) : List Node → Except Fault (List Node × Anchors)
  | [] => .ok ([], known)
  | item :: rest => do
    let (item, known) ← item.expand known
    let (rest, known) ← expandItems known rest
    return (item :: rest, known)

/-- Entries without anchors and aliases. -/
def expandEntries (known : Anchors) :
    List (Node × Node) → Except Fault (List (Node × Node) × Anchors)
  | [] => .ok ([], known)
  | (key, value) :: rest => do
    let (key, known) ← key.expand known
    let (value, known) ← value.expand known
    let (rest, known) ← expandEntries known rest
    return ((key, value) :: rest, known)

end

/-! ## Values -/

/-- Sets an entry: an entry of that key keeps its place, a new one comes last. -/
def setEntry (entries : List (Scalar × Value)) (key : Scalar) (value : Value) :
    List (Scalar × Value) :=
  match entries with
  | [] => [(key, value)]
  | (k, v) :: rest =>
    if k.sameKey key then (k, value) :: rest else (k, v) :: setEntry rest key value

/-- The mapping of a list of entries; of several of one key the last counts. -/
def Value.ofEntries (entries : List (Scalar × Value)) : Value :=
  .mapping (entries.foldl (fun set (k, v) => setEntry set k v) [])

/-- The type that a tag names, if it is one of the common ones. -/
def typeOfTag? (tag : String) : Option String :=
  match tag.toList with
  | '!' :: '!' :: name => some (String.ofList name)
  | _ => none

/-- The value of a node under a tag, given the value without it. A lone mark asks for the value by
spelling. -/
def Value.ofTag (tag : String) (node : Node) (value : Except Fault Value) :
    Except Fault Value :=
  match node with
  | .scalar text _ =>
    if tag = "!" then scalar <$> Scalar.ofPlain text
    else
      match typeOfTag? tag with
      | some type => scalar <$> Scalar.ofType type text
      | none => .error .malformed
  | .sequence _ => if tag = "!" ∨ typeOfTag? tag = some "seq" then value else .error .malformed
  | .mapping _ => if tag = "!" ∨ typeOfTag? tag = some "map" then value else .error .malformed
  | _ => .error .malformed

/-- The entries of a mapping. -/
def Value.entries? : Value → Option (List (Scalar × Value))
  | mapping entries => some entries
  | _ => none

/-- The entries that the value of a merge key stands for: those of a mapping, or of several, of
which earlier ones count more. -/
def Value.merged : Value → Except Fault (List (Scalar × Value))
  | mapping entries => .ok entries
  | sequence items =>
    match items.mapM entries? with
    | some parts => .ok parts.reverse.flatten
    | none => .error .malformed
  | scalar _ => .error .malformed

/-- A key has to be a scalar. -/
def Value.key : Value → Except Fault Scalar
  | scalar s => .ok s
  | _ => .error .malformed

mutual

/-- The value of a node without anchors and aliases. -/
def Value.ofNode : Node → Except Fault Value
  | .scalar text isPlain =>
    if isPlain then scalar <$> Scalar.ofPlain text else .ok (scalar (.text (String.ofList text)))
  | .sequence items => sequence <$> ofNodes items
  | .mapping entries => do
    let (merged, own) ← ofNodeEntries entries
    return ofEntries (merged ++ own)
  | .tagged tag node => ofTag tag node (ofNode node)
  | .anchored _ _ | .alias _ => .error .malformed

/-- The values of items. -/
def Value.ofNodes : List Node → Except Fault (List Value)
  | [] => .ok []
  | node :: rest => do
    let value ← ofNode node
    return value :: (← ofNodes rest)

/-- The entries of a mapping: those from merge keys, and its own. The sign for a default value is
a text when it is a key. -/
def Value.ofNodeEntries :
    List (Node × Node) → Except Fault (List (Scalar × Value) × List (Scalar × Value))
  | [] => .ok ([], [])
  | (.scalar ['<', '<'] true, node) :: rest => do
    let value ← ofNode node
    let more ← value.merged
    let (merged, own) ← ofNodeEntries rest
    return (more ++ merged, own)
  | (.scalar ['='] true, node) :: rest => do
    let value ← ofNode node
    let (merged, own) ← ofNodeEntries rest
    return (merged, (.text "=", value) :: own)
  | (keyNode, node) :: rest => do
    let key ← (← ofNode keyNode).key
    let value ← ofNode node
    let (merged, own) ← ofNodeEntries rest
    return (merged, (key, value) :: own)

end

/-- The value of a document. An empty document stands for null. -/
def Value.ofText (text : List Char) : Except Fault Value := do
  match ← Node.ofTokens (← Token.ofText text) with
  | some node =>
    let (node, _) ← node.expand []
    ofNode node
  | none => return scalar .null

/-! ## Values as JSON -/

/-- A scalar as JSON has it; there are no dates there. -/
def Scalar.toJson? : Scalar → Option Json
  | null => some .null
  | bool b => some (.bool b)
  | int n => some (.int n)
  | real x => some (.num (.real x))
  | date _ => none
  | text s => some (.str s)

mutual

/-- A value as JSON has it; keys have to be texts. -/
def Value.toJson? : Value → Option Json
  | scalar s => s.toJson?
  | sequence items => Json.list <$> itemsToJson? items
  | mapping entries => Json.object <$> entriesToJson? entries

/-- Items as JSON has them. -/
def Value.itemsToJson? : List Value → Option (List Json)
  | [] => some []
  | item :: rest => do
    let item ← item.toJson?
    return item :: (← itemsToJson? rest)

/-- Entries as the fields of a JSON object. -/
def Value.entriesToJson? : List (Scalar × Value) → Option (List (String × Json))
  | [] => some []
  | (.text key, value) :: rest => do
    let value ← value.toJson?
    return (key, value) :: (← entriesToJson? rest)
  | _ => none

end

end GrammarAudit.Yaml
