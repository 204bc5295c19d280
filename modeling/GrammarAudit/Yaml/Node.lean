import GrammarAudit.Yaml.Token

/-!
# Nodes of a document

The tree that the tokens of a document spell out, before scalars are given a value.

- `Node`: scalars, sequences and mappings, with their tags and anchors, and aliases.
- `takeNode`: the node at the start of a list of tokens.
- `Node.ofTokens`: the node of a document, if it holds one.
-/

namespace GrammarAudit.Yaml

/-- A node of a document. -/
inductive Node where
  | scalar (text : List Char) (isPlain : Bool)
  | sequence (items : List Node)
  | mapping (entries : List (Node × Node))
  | tagged (tag : String) (node : Node)
  | anchored (name : String) (node : Node)
  | alias (name : String)
deriving Repr, Inhabited

/-- A node that is left out. -/
def Node.empty : Node := .scalar [] true

/-- Where a node stands: in a block or in a flow collection, and whether a sequence may start
without being indented. -/
inductive NodePlace where
  | block
  | blockValue
  | flow
deriving DecidableEq

/-- The tag and the anchor in front of a node. -/
structure Properties where
  tag : Option String := none
  anchor : Option String := none

/-- Takes the tag and the anchor in front of a node, in either order. -/
def takeProperties : List Token → Properties × List Token
  | .anchor a :: .tag t :: rest => (⟨some t, some a⟩, rest)
  | .tag t :: .anchor a :: rest => (⟨some t, some a⟩, rest)
  | .anchor a :: rest => (⟨none, some a⟩, rest)
  | .tag t :: rest => (⟨some t, none⟩, rest)
  | tokens => ({}, tokens)

/-- A node with its properties. -/
def Properties.apply (p : Properties) (node : Node) : Node :=
  let tagged := match p.tag with
    | some tag => .tagged tag node
    | none => node
  match p.anchor with
  | some name => .anchored name tagged
  | none => tagged

/-- Whether the next token is one of some. -/
def nextIn (tokens : List Token) (marks : List Token) : Bool :=
  match tokens with
  | t :: _ => marks.contains t
  | [] => false

mutual

/-- Takes a node with its properties. -/
def takeNode (place : NodePlace) : Nat → List Token → Except Fault (Node × List Token)
  | 0, _ => .error .malformed
  | _ + 1, .alias name :: rest => .ok (.alias name, rest)
  | fuel + 1, tokens => do
    let (properties, tokens) := takeProperties tokens
    let (node, rest) ← takeContent place (properties.tag.isSome || properties.anchor.isSome) fuel
      tokens
    return (properties.apply node, rest)

/-- Takes what stands after the properties of a node. It may be left out when there are some. -/
def takeContent (place : NodePlace) (mayBeEmpty : Bool) :
    Nat → List Token → Except Fault (Node × List Token)
  | 0, _ => .error .malformed
  | fuel + 1, tokens => do
    match tokens with
    | .scalar text isPlain :: rest => return (.scalar text isPlain, rest)
    | .flowSequenceStart :: rest =>
      let (items, rest) ← takeFlowItems true fuel rest
      return (.sequence items, rest)
    | .flowMappingStart :: rest =>
      let (entries, rest) ← takeFlowEntries true fuel rest
      return (.mapping entries, rest)
    | .blockEntry :: _ =>
      if place = .blockValue then
        let (items, rest) ← takeLevelItems fuel tokens
        return (.sequence items, rest)
      else if mayBeEmpty then return (.empty, tokens)
      else .error .malformed
    | .blockSequenceStart :: rest =>
      if place = .flow then .error .malformed
      else
        let (items, rest) ← takeBlockItems fuel rest
        return (.sequence items, rest)
    | .blockMappingStart :: rest =>
      if place = .flow then .error .malformed
      else
        let (entries, rest) ← takeBlockEntries fuel rest
        return (.mapping entries, rest)
    | _ => if mayBeEmpty then return (.empty, tokens) else .error .malformed

/-- Takes the items of a block sequence up to its end. -/
def takeBlockItems : Nat → List Token → Except Fault (List Node × List Token)
  | 0, _ => .error .malformed
  | fuel + 1, tokens => do
    match tokens with
    | .blockEntry :: rest =>
      let (item, rest) ← takeUnless [.blockEntry, .blockEnd] .block fuel rest
      let (items, rest) ← takeBlockItems fuel rest
      return (item :: items, rest)
    | .blockEnd :: rest => return ([], rest)
    | _ => .error .malformed

/-- Takes the items of a sequence that is not indented, as far as they go. -/
def takeLevelItems : Nat → List Token → Except Fault (List Node × List Token)
  | 0, _ => .error .malformed
  | fuel + 1, tokens => do
    match tokens with
    | .blockEntry :: rest =>
      let (item, rest) ← takeUnless [.blockEntry, .key, .value, .blockEnd] .block fuel rest
      let (items, rest) ← takeLevelItems fuel rest
      return (item :: items, rest)
    | _ => return ([], tokens)

/-- Takes a node, unless one of some tokens shows that it is left out. -/
def takeUnless (marks : List Token) (place : NodePlace) :
    Nat → List Token → Except Fault (Node × List Token)
  | 0, _ => .error .malformed
  | fuel + 1, tokens =>
    if nextIn tokens marks then .ok (.empty, tokens) else takeNode place fuel tokens

/-- Takes the entries of a block mapping up to its end. Each has a key, which may be left out. -/
def takeBlockEntries : Nat → List Token → Except Fault (List (Node × Node) × List Token)
  | 0, _ => .error .malformed
  | fuel + 1, tokens => do
    match tokens with
    | .key :: rest =>
      let (key, rest) ← takeUnless [.key, .value, .blockEnd] .blockValue fuel rest
      let (value, rest) ← takeBlockValue fuel rest
      let (entries, rest) ← takeBlockEntries fuel rest
      return ((key, value) :: entries, rest)
    | .blockEnd :: rest => return ([], rest)
    | _ => .error .malformed

/-- Takes the value of an entry of a block mapping; it may be left out. -/
def takeBlockValue : Nat → List Token → Except Fault (Node × List Token)
  | 0, _ => .error .malformed
  | fuel + 1, tokens =>
    match tokens with
    | .value :: rest => takeUnless [.key, .value, .blockEnd] .blockValue fuel rest
    | _ => .ok (.empty, tokens)

/-- Takes the items of a flow sequence up to its end. An item with a key is a mapping. -/
def takeFlowItems (first : Bool) : Nat → List Token → Except Fault (List Node × List Token)
  | 0, _ => .error .malformed
  | fuel + 1, tokens => do
    match tokens with
    | .flowSequenceEnd :: rest => return ([], rest)
    | _ =>
      let rest ← takeFlowSeparator first tokens
      match rest with
      | .flowSequenceEnd :: rest => return ([], rest)
      | .key :: rest =>
        let (key, rest) ← takeUnless [.value, .flowEntry, .flowSequenceEnd] .flow fuel rest
        let (value, rest) ← takeFlowValue [.flowEntry, .flowSequenceEnd] fuel rest
        let (items, rest) ← takeFlowItems false fuel rest
        return (.mapping [(key, value)] :: items, rest)
      | _ =>
        let (item, rest) ← takeNode .flow fuel rest
        let (items, rest) ← takeFlowItems false fuel rest
        return (item :: items, rest)

/-- Takes the entries of a flow mapping up to its end. A key may stand without a value. -/
def takeFlowEntries (first : Bool) :
    Nat → List Token → Except Fault (List (Node × Node) × List Token)
  | 0, _ => .error .malformed
  | fuel + 1, tokens => do
    match tokens with
    | .flowMappingEnd :: rest => return ([], rest)
    | _ =>
      let rest ← takeFlowSeparator first tokens
      match rest with
      | .flowMappingEnd :: rest => return ([], rest)
      | .key :: rest =>
        let (key, rest) ← takeUnless [.value, .flowEntry, .flowMappingEnd] .flow fuel rest
        let (value, rest) ← takeFlowValue [.flowEntry, .flowMappingEnd] fuel rest
        let (entries, rest) ← takeFlowEntries false fuel rest
        return ((key, value) :: entries, rest)
      | _ =>
        let (key, rest) ← takeNode .flow fuel rest
        let (entries, rest) ← takeFlowEntries false fuel rest
        return ((key, .empty) :: entries, rest)

/-- Takes the value of an entry of a flow collection; it may be left out. -/
def takeFlowValue (ends : List Token) : Nat → List Token → Except Fault (Node × List Token)
  | 0, _ => .error .malformed
  | fuel + 1, tokens =>
    match tokens with
    | .value :: rest => takeUnless ends .flow fuel rest
    | _ => .ok (.empty, tokens)

/-- Takes the separator in front of an entry of a flow collection, unless it is the first. -/
def takeFlowSeparator (first : Bool) (tokens : List Token) : Except Fault (List Token) :=
  match first, tokens with
  | true, _ => .ok tokens
  | false, .flowEntry :: rest => .ok rest
  | false, _ => .error .malformed

end

/-! ## Documents -/

/-- Takes the directives in front of a document. One that gives the version has to give the first
one. -/
def takeDirectives (versionSeen : Bool) : List Token → Except Fault (List Token)
  | .directive name value :: rest =>
    if name = "YAML" then
      let version := value.dropWhile (· = ' ')
      if versionSeen || !"1.".toList.isPrefixOf version then .error .malformed
      else takeDirectives true rest
    else takeDirectives versionSeen rest
  | tokens => .ok tokens

/-- What comes after the node of a document: nothing but ends of documents. -/
def onlyEnds (tokens : List Token) : Bool :=
  tokens.all (· = .documentEnd)

/-- Takes the node of a document that is announced by its start mark; it may be left out. -/
def takeDocument (tokens : List Token) : Except Fault (Node × List Token) :=
  match tokens with
  | [] => .ok (.empty, [])
  | .documentEnd :: _ => .ok (.empty, tokens)
  | .documentStart :: _ => .ok (.empty, tokens)
  | .directive _ _ :: _ => .ok (.empty, tokens)
  | _ => takeNode .block (4 * tokens.length + 4) tokens

/-- The node of the one document that the tokens hold, if they hold any. -/
def Node.ofTokens (tokens : List Token) : Except Fault (Option Node) := do
  match tokens with
  | [] => return none
  | .directive _ _ :: _ | .documentStart :: _ =>
    match ← takeDirectives false tokens with
    | .documentStart :: rest =>
      let (node, rest) ← takeDocument rest
      if onlyEnds rest then return some node else .error .malformed
    | _ => .error .malformed
  | _ =>
    let (node, rest) ← takeNode .block (4 * tokens.length + 4) tokens
    if onlyEnds rest then return some node else .error .malformed

end GrammarAudit.Yaml
