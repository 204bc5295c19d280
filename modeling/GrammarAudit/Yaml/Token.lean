import GrammarAudit.Yaml.Cursor
import GrammarAudit.Yaml.Scalar

/-!
# Tokens of a document

The marks and scalars of a document, with the blocks that its indentation opens and closes. A key
of a mapping is recognised only at the colon after it; its marks are then put in front of it.

- `Token`: marks, scalars and block boundaries.
- `takePlain`, `takeQuoted`, `takeBlock`: the three ways to write a scalar.
- `Token.ofText`: the tokens of a document.
-/

namespace GrammarAudit.Yaml

/-- A mark, a scalar or a block boundary. -/
inductive Token where
  | directive (name : String) (value : List Char)
  | documentStart
  | documentEnd
  | blockSequenceStart
  | blockMappingStart
  | blockEnd
  | flowSequenceStart
  | flowSequenceEnd
  | flowMappingStart
  | flowMappingEnd
  | blockEntry
  | flowEntry
  | key
  | value
  | alias (name : String)
  | anchor (name : String)
  | tag (name : String)
  | scalar (text : List Char) (isPlain : Bool)
deriving DecidableEq, Repr

/-! ## Plain scalars -/

/-- The line breaks and indentations before the next text in a plain scalar: the breaks, and the
cursor, unless documents are separated there. -/
def plainBreaks : Nat → Cursor → List Char × Cursor × Bool
  | 0, c => ([], c, false)
  | fuel + 1, c =>
    if c.sees (· = ' ') then plainBreaks fuel c.next
    else match c.takeBreak? with
      | none => ([], c, false)
      | some (b, after) =>
        if after.atSeparator then ([b], after, true)
        else
          let (breaks, rest, stop) := plainBreaks fuel after
          (b :: breaks, rest, stop)

/-- A first line break and further ones as they count in a scalar: a single line feed is a
space. -/
def foldBreaks (first : Char) (breaks : List Char) : List Char :=
  if first ≠ '\n' then first :: breaks else if breaks = [] then [' '] else breaks

/-- What separates two words of a plain scalar, the cursor after it and whether it breaks the line.
Nothing separates them where documents are separated. -/
def plainSpaces (c : Cursor) : List Char × Cursor × Bool :=
  let blanks := c.rest.takeWhile (· = ' ')
  let after := c.advance blanks.length
  match after.takeBreak? with
  | none => (blanks, after, false)
  | some (b, start) =>
    if start.atSeparator then ([], start, true)
    else
      let (breaks, rest, stop) := plainBreaks (start.left + 1) start
      (if stop then [] else foldBreaks b breaks, rest, true)

/-- A character that ends a word in a flow collection. -/
def isFlowMark (c : Char) : Bool :=
  c ∈ [',', '?', '[', ']', '{', '}']

/-- The length of the word at the start of a text. -/
def plainLength (inFlow : Bool) : List Char → Nat
  | [] => 0
  | x :: rest =>
    let colonEnds := rest.head?.all fun y => isSpacing y || (inFlow && isFlowMark y && y ≠ '?')
    if isSpacing x || (x = ':' && colonEnds) || (inFlow && isFlowMark x) then 0
    else plainLength inFlow rest + 1

/-- Reads the words of a plain scalar: its text, the cursor after it, and whether a line break came
after its last word. -/
def takePlain (inFlow : Bool) (indent : Int) (pending : List Char) :
    Nat → Cursor → List Char × Cursor × Bool
  | 0, c => ([], c, false)
  | fuel + 1, c =>
    let n := if c.sees (· = '#') then 0 else plainLength inFlow c.rest
    if n = 0 then ([], c, pending.any isBreak)
    else
      let word := c.rest.take n
      let (spaces, after, broken) := plainSpaces (c.advance n)
      if spaces = [] || after.sees (· = '#') || (!inFlow && (after.column : Int) < indent) then
        (pending ++ word, after, broken)
      else
        let (more, last, stillBroken) := takePlain inFlow indent spaces fuel after
        (pending ++ word ++ more, last, if more = [] then broken else stillBroken)

/-! ## Quoted scalars -/

/-- The character of an escape of one letter. -/
def escapeOf? (c : Char) : Option Char :=
  [('0', 0x0), ('a', 0x7), ('b', 0x8), ('t', 0x9), ('\t', 0x9), ('n', 0xa), ('v', 0xb), ('f', 0xc),
    ('r', 0xd), ('e', 0x1b), (' ', 0x20), ('"', 0x22), ('\\', 0x5c), ('/', 0x2f), ('N', 0x85),
    ('_', 0xa0), ('L', 0x2028), ('P', 0x2029)].lookup c |>.map Char.ofNat

/-- The number of digits of an escape by code point. -/
def escapeDigits? (c : Char) : Option Nat :=
  [('x', 2), ('u', 4), ('U', 8)].lookup c

/-- A hexadecimal digit. -/
def isHex (c : Char) : Bool :=
  c.isDigit || ('a' ≤ c && c ≤ 'f') || ('A' ≤ c && c ≤ 'F')

/-- The indentation and blank lines before the next text in a quoted scalar. Documents must not be
separated there. -/
def quotedBreaks : Nat → Cursor → Except Fault (List Char × Cursor)
  | 0, c => .ok ([], c)
  | fuel + 1, c =>
    if c.atSeparator then .error .malformed
    else
      let start := c.skip fun x => x = ' ' || x = '\t'
      match start.takeBreak? with
      | none => .ok ([], start)
      | some (b, after) => do
        let (breaks, rest) ← quotedBreaks fuel after
        return (b :: breaks, rest)

/-- The character of an escape by code point, with the cursor after it. -/
def numberEscape (digits : Nat) (c : Cursor) : Except Fault (List Char × Cursor) :=
  let code := c.rest.take digits
  if code.length = digits ∧ code.all isHex then
    let n := valueIn 16 code
    if n < 0x110000 then .ok ([Char.ofNat n], c.advance digits)
    else .error (.noValue "chr() arg not in range(0x110000)")
  else .error .malformed

/-- Reads an escape after its backslash. A line break is escaped together with the indentation
after it. -/
def takeEscape (c : Cursor) : Except Fault (List Char × Cursor) :=
  match c.rest with
  | [] => .error .malformed
  | x :: _ =>
    match escapeOf? x, escapeDigits? x with
    | some y, _ => .ok ([y], c.next)
    | none, some digits => numberEscape digits c.next
    | none, none =>
      match c.takeBreak? with
      | some (_, after) => quotedBreaks (after.left + 1) after
      | none => .error .malformed

/-- Reads spaces and line breaks inside a quoted scalar. -/
def quotedSpaces (c : Cursor) : Except Fault (List Char × Cursor) :=
  let blanks := c.rest.takeWhile fun x => x = ' ' || x = '\t'
  let after := c.advance blanks.length
  match after.takeBreak? with
  | none => if after.rest = [] then .error .malformed else .ok (blanks, after)
  | some (b, start) => do
    let (breaks, rest) ← quotedBreaks (start.left + 1) start
    return (foldBreaks b breaks, rest)

/-- Reads a quoted scalar after its opening quote, up to and with its closing one. -/
def takeQuoted (mark : Char) : Nat → Cursor → Except Fault (List Char × Cursor)
  | 0, _ => .error .malformed
  | fuel + 1, c => do
    match c.rest with
    | [] => .error .malformed
    | x :: rest =>
      let (part, after) ←
        if x = mark then
          if mark = '\'' && rest.head? = some '\'' then .ok (['\''], c.advance 2)
          else return ([], c.next)
        else if isSpacing x then quotedSpaces c
        else if x = '\\' && mark = '"' then takeEscape c.next
        else .ok ([x], c.next)
      let (more, last) ← takeQuoted mark fuel after
      return (part ++ more, last)

/-! ## Block scalars -/

/-- The line breaks before the next line of a block scalar. -/
def blockBreaks (indent : Nat) : Nat → Cursor → List Char × Cursor
  | 0, c => ([], c)
  | fuel + 1, c =>
    if c.column < indent && c.sees (· = ' ') then blockBreaks indent fuel c.next
    else match c.takeBreak? with
      | none => ([], c)
      | some (b, after) =>
        let (breaks, rest) := blockBreaks indent fuel after
        (b :: breaks, rest)

/-- The deepest indentation before the first line of a block scalar, with the breaks there. -/
def blockIndentation (deepest : Nat) : Nat → Cursor → List Char × Nat × Cursor
  | 0, c => ([], deepest, c)
  | fuel + 1, c =>
    if c.sees (· = ' ') then blockIndentation (max deepest c.next.column) fuel c.next
    else match c.takeBreak? with
      | none => ([], deepest, c)
      | some (b, after) =>
        let (breaks, depth, rest) := blockIndentation deepest fuel after
        (b :: breaks, depth, rest)

/-- The lines of a block scalar, its last line break, the breaks after it and the cursor there. -/
def blockLines (folded : Bool) (indent : Nat) (breaks : List Char) :
    Nat → Cursor → List Char × List Char × List Char × Cursor
  | 0, c => ([], [], breaks, c)
  | fuel + 1, c =>
    if c.column ≠ indent || c.rest = [] then ([], [], breaks, c)
    else
      let line := c.rest.takeWhile fun x => !isBreak x
      let flush := !c.sees fun x => x = ' ' || x = '\t'
      let stop := c.advance line.length
      let (lineEnd, after) :=
        match stop.takeBreak? with
        | some (b, after) => ([b], after)
        | none => ([], stop)
      let (breaks', next) := blockBreaks indent (after.left + 1) after
      if next.column = indent && next.rest ≠ [] then
        let joins := folded && lineEnd = ['\n'] && flush &&
          !next.sees fun x => x = ' ' || x = '\t'
        let glue := if joins then (if breaks' = [] then [' '] else []) else lineEnd
        let (more, lastEnd, lastBreaks, last) := blockLines folded indent breaks' fuel next
        (breaks ++ line ++ glue ++ more, lastEnd, lastBreaks, last)
      else (breaks ++ line, lineEnd, breaks', next)

/-- The indicators of a block scalar: whether the last breaks are kept or dropped, the indentation
if it is given, and the cursor after them. -/
def blockIndicators (c : Cursor) : Except Fault (Option Bool × Option Nat × Cursor) := do
  let chomping := fun (c : Cursor) =>
    match c.rest with
    | '+' :: _ => (some true, c.next)
    | '-' :: _ => (some false, c.next)
    | _ => (none, c)
  let increment := fun (c : Cursor) =>
    match c.rest with
    | x :: _ => if x.isDigit then (some (x.toNat - '0'.toNat), c.next) else (none, c)
    | [] => (none, c)
  let (keep, c₁) := chomping c
  let (depth, c₂) := increment c₁
  let (keep, c₃) := if keep.isNone then chomping c₂ else (keep, c₂)
  if depth = some 0 || !c₃.endsAt (fun x => x = ' ' || isBreak x) 0 then .error .malformed
  else return (keep, depth, c₃)

/-- Reads a block scalar after its mark. -/
def takeBlock (folded : Bool) (indent : Int) (c : Cursor) : Except Fault (List Char × Cursor) := do
  let (keep, increment, c₁) ← blockIndicators c
  let c₂ := c₁.skip (· = ' ')
  let c₃ := if c₂.sees (· = '#') then c₂.skip fun x => !isBreak x else c₂
  if !c₃.endsAt isBreak 0 then .error .malformed
  else
    let start := (c₃.takeBreak?.map Prod.snd).getD c₃
    let least := max 1 (indent + 1).toNat
    let fuel := start.left + 1
    let (breaks, depth, body) :=
      match increment with
      | none =>
        let (breaks, deepest, body) := blockIndentation 0 fuel start
        (breaks, max least deepest, body)
      | some n =>
        let depth := least + n - 1
        let (breaks, body) := blockBreaks depth fuel start
        (breaks, depth, body)
    let (text, lastEnd, lastBreaks, rest) := blockLines folded depth breaks fuel body
    let lineEnd := if keep = some false then [] else lastEnd
    return (text ++ lineEnd ++ (if keep = some true then lastBreaks else []), rest)

/-! ## Names -/

/-- A character of the name of an anchor. -/
def isNameChar (c : Char) : Bool :=
  c.isAlphanum || c = '-' || c = '_'

/-- What may follow the name of an anchor. -/
def endsName (c : Char) : Bool :=
  isSpacing c || c ∈ ['?', ':', ',', ']', '}', '%', '@', '`']

/-- Reads the name of an anchor or an alias. -/
def takeName (c : Cursor) : Except Fault (String × Cursor) :=
  let name := c.rest.takeWhile isNameChar
  let after := c.advance name.length
  if name = [] || !after.endsAt endsName 0 then .error .malformed
  else .ok (String.ofList name, after)

/-- Reads a tag after its first mark: a name up to the next space. -/
def takeTag (c : Cursor) : Except Fault (String × Cursor) :=
  if c.sees (· = '<') then
    let name := (c.rest.drop 1).takeWhile fun x => x ≠ '>' && !isSpacing x
    let after := c.advance (name.length + 1)
    if name = [] || !after.sees (· = '>') || !after.next.endsAt isSpacing 0 then .error .malformed
    else .ok (String.ofList name, after.next)
  else
    let name := c.rest.takeWhile fun x => !isSpacing x
    .ok (String.ofList ('!' :: name), c.advance name.length)

/-! ## Scanning -/

/-- A place where a key may have started: the number of tokens before it, where it stands, and
whether nothing but a key can stand there. -/
structure KeyMark where
  position : Nat
  required : Bool
  left : Nat
  line : Nat
  column : Nat
deriving DecidableEq, Repr

/-- The state of scanning: the cursor, the tokens so far from the last one back and their number,
the columns of the open blocks from the innermost out, the depth of flow collections, whether a key
may start here, and for each depth where one may have started. -/
structure Scan where
  cursor : Cursor
  tokens : List Token := []
  count : Nat := 0
  indent : Int := -1
  outer : List Int := []
  depth : Nat := 0
  keyAllowed : Bool := true
  keys : List (Nat × KeyMark) := []

namespace Scan

/-- The state with a token added. -/
def push (s : Scan) (t : Token) : Scan :=
  { s with tokens := t :: s.tokens, count := s.count + 1 }

/-- The state with a token put after a number of tokens. -/
def insert (s : Scan) (position : Nat) (t : Token) : Scan :=
  let later := s.count - position
  { s with tokens := s.tokens.take later ++ t :: s.tokens.drop later, count := s.count + 1 }

/-- The state with the cursor moved. -/
def goto (s : Scan) (c : Cursor) : Scan :=
  { s with cursor := c }

/-- Drops the place of a key at the current depth. If only a key could stand there, there should
have been a colon. -/
def dropKey (s : Scan) : Except Fault Scan :=
  match s.keys.lookup s.depth with
  | some mark =>
    if mark.required then .error .malformed
    else .ok { s with keys := s.keys.filter (·.1 ≠ s.depth) }
  | none => .ok s

/-- Remembers that a key may start here. -/
def saveKey (s : Scan) : Except Fault Scan :=
  if s.keyAllowed then do
    let s ← s.dropKey
    let c := s.cursor
    let required := s.depth = 0 && s.indent = c.column
    return { s with keys := (s.depth, ⟨s.count, required, c.left, c.line, c.column⟩) ::
                      s.keys }
  else .ok s

/-- The longest that a key can be. -/
def longestKey : Nat := 1024

/-- Whether a key that may have started can no longer end: it has to end on its line. -/
def isStale (s : Scan) (mark : KeyMark) : Bool :=
  mark.line ≠ s.cursor.line || longestKey < mark.left - s.cursor.left

/-- Drops the places of keys that can no longer end. -/
def dropStale (s : Scan) : Except Fault Scan :=
  if s.keys.any fun (_, mark) => s.isStale mark && mark.required then .error .malformed
  else .ok { s with keys := s.keys.filter fun (_, mark) => !s.isStale mark }

/-- Closes the blocks that are indented deeper than a column. -/
def unwind (column : Int) (s : Scan) : List Int → Scan
  | [] => s
  | previous :: rest =>
    if column < s.indent then
      unwind column { s.push .blockEnd with indent := previous, outer := rest } rest
    else s

/-- Closes deeper blocks; inside a flow collection indentation does not count. -/
def unwindTo (s : Scan) (column : Int) : Scan :=
  if s.depth = 0 then unwind column s s.outer else s

/-- Opens a block at a column that is deeper than the current one; its mark is put at a position
among the tokens. -/
def openBlock (s : Scan) (column : Nat) (position : Nat) (t : Token) : Scan :=
  if s.indent < column then
    { s.insert position t with indent := column, outer := s.indent :: s.outer }
  else s

/-- Passes over spaces, comments and line breaks to the next token. -/
def toNextToken (s : Scan) : Nat → Scan
  | 0 => s
  | fuel + 1 =>
    let c := s.cursor.skip (· = ' ')
    let c := if c.sees (· = '#') then c.skip fun x => !isBreak x else c
    match c.takeBreak? with
    | some (_, after) =>
      toNextToken { s with cursor := after, keyAllowed := s.keyAllowed || s.depth = 0 } fuel
    | none => s.goto c

/-- Adds a mark of one character. -/
def mark (s : Scan) (t : Token) : Scan :=
  (s.push t).goto s.cursor.next

/-- A mark that separates documents. -/
def separator (s : Scan) (t : Token) : Except Fault Scan := do
  let s ← (s.unwindTo (-1)).dropKey
  return ({ s with keyAllowed := false }.push t).goto (s.cursor.advance 3)

/-- A directive: a name and the rest of its line. -/
def directive (s : Scan) : Except Fault Scan := do
  let s ← (s.unwindTo (-1)).dropKey
  let start := s.cursor.next
  let name := start.rest.takeWhile isNameChar
  let after := start.advance name.length
  if name = [] || !after.endsAt (fun x => x = ' ' || isBreak x) 0 then .error .malformed
  else
    let value := after.rest.takeWhile fun x => !isBreak x
    return ({ s with keyAllowed := false }.push (.directive (String.ofList name) value)).goto
      (after.advance value.length)

/-- The start of a flow collection. -/
def flowStart (s : Scan) (t : Token) : Except Fault Scan := do
  let s ← s.saveKey
  return { s with depth := s.depth + 1, keyAllowed := true }.mark t

/-- The end of a flow collection; there has to be one. -/
def flowEnd (s : Scan) (t : Token) : Except Fault Scan := do
  if s.depth = 0 then .error .malformed
  else
    let s ← s.dropKey
    return { s with depth := s.depth - 1, keyAllowed := false }.mark t

/-- The separator of a flow collection. -/
def flowEntry (s : Scan) : Except Fault Scan := do
  let s ← s.dropKey
  return { s with keyAllowed := true }.mark .flowEntry

/-- The mark of an item of a block sequence. -/
def blockEntry (s : Scan) : Except Fault Scan := do
  if s.depth = 0 && !s.keyAllowed then .error .malformed
  else
    let s := if s.depth = 0 then
        s.openBlock s.cursor.column s.count .blockSequenceStart
      else s
    let s ← s.dropKey
    return { s with keyAllowed := true }.mark .blockEntry

/-- The mark of a key. -/
def explicitKey (s : Scan) : Except Fault Scan := do
  if s.depth = 0 && !s.keyAllowed then .error .malformed
  else
    let s := if s.depth = 0 then
        s.openBlock s.cursor.column s.count .blockMappingStart
      else s
    let s ← s.dropKey
    return { s with keyAllowed := s.depth = 0 }.mark .key

/-- The colon before a value: after a key that could end here, or else on its own. -/
def valueMark (s : Scan) : Except Fault Scan := do
  match s.keys.lookup s.depth with
  | some k =>
    let s := { s.insert k.position .key with keys := s.keys.filter (·.1 ≠ s.depth) }
    let s := if s.depth = 0 then s.openBlock k.column k.position .blockMappingStart else s
    return { s with keyAllowed := false }.mark .value
  | none =>
    if s.depth = 0 && !s.keyAllowed then .error .malformed
    else
      let s := if s.depth = 0 then
          s.openBlock s.cursor.column s.count .blockMappingStart
        else s
      let s ← s.dropKey
      return { s with keyAllowed := s.depth = 0 }.mark .value

/-- A token that a key may start with, read by a function that gives the cursor after it. -/
def keyStart (s : Scan) (read : Cursor → Except Fault (Token × Cursor)) : Except Fault Scan := do
  let s ← s.saveKey
  let (t, after) ← read s.cursor
  return ({ s with keyAllowed := false }.push t).goto after

/-- A block scalar. -/
def blockScalar (s : Scan) (folded : Bool) : Except Fault Scan := do
  let s ← { s with keyAllowed := true }.dropKey
  let (text, after) ← takeBlock folded s.indent s.cursor.next
  return (s.push (.scalar text false)).goto after

/-- A plain scalar. After a line break a key may start again. -/
def plain (s : Scan) : Except Fault Scan := do
  let s ← s.saveKey
  let (text, after, broken) :=
    takePlain (s.depth ≠ 0) (s.indent + 1) [] (s.cursor.left + 1) s.cursor
  return ({ s with keyAllowed := broken }.push (.scalar text true)).goto after

/-- The marks that no plain scalar starts with, save the first three before a text. -/
def isIndicator (c : Char) : Bool :=
  c ∈ ['-', '?', ':', ',', '[', ']', '{', '}', '#', '&', '*', '!', '|', '>', '\'', '"', '%', '@',
    '`']

/-- Whether a plain scalar starts at the cursor. -/
def startsPlain (s : Scan) : Bool :=
  match s.cursor.rest with
  | [] => false
  | x :: _ =>
    (!isSpacing x && !isIndicator x) ||
      (!s.cursor.endsAt isSpacing 1 && (x = '-' || (s.depth = 0 && (x = '?' || x = ':'))))

/-- Reads one token at the cursor. -/
def token (s : Scan) (x : Char) : Except Fault Scan :=
  let c := s.cursor
  let gap := c.endsAt isSpacing 1
  if x = '%' && c.column = 0 then s.directive
  else if c.column = 0 && c.atMark "---" then s.separator .documentStart
  else if c.column = 0 && c.atMark "..." then s.separator .documentEnd
  else if x = '[' then s.flowStart .flowSequenceStart
  else if x = '{' then s.flowStart .flowMappingStart
  else if x = ']' then s.flowEnd .flowSequenceEnd
  else if x = '}' then s.flowEnd .flowMappingEnd
  else if x = ',' then s.flowEntry
  else if x = '-' && gap then s.blockEntry
  else if x = '?' && (s.depth ≠ 0 || gap) then s.explicitKey
  else if x = ':' && (s.depth ≠ 0 || gap) then s.valueMark
  else if x = '*' then s.keyStart fun c => do
    let (name, after) ← takeName c.next
    return (.alias name, after)
  else if x = '&' then s.keyStart fun c => do
    let (name, after) ← takeName c.next
    return (.anchor name, after)
  else if x = '!' then s.keyStart fun c => do
    let (name, after) ← takeTag c.next
    return (.tag name, after)
  else if x = '|' && s.depth = 0 then s.blockScalar false
  else if x = '>' && s.depth = 0 then s.blockScalar true
  else if x = '\'' || x = '"' then s.keyStart fun c => do
    let (text, after) ← takeQuoted x (c.left + 1) c.next
    return (.scalar text false, after)
  else if s.startsPlain then s.plain
  else .error .malformed

/-- Reads all tokens up to the end of the document. -/
def all (s : Scan) : Nat → Except Fault (List Token)
  | 0 => .error .malformed
  | fuel + 1 => do
    let s ← (s.toNextToken (s.cursor.left + 1)).dropStale
    let s := s.unwindTo s.cursor.column
    match s.cursor.rest with
    | [] =>
      let s ← (s.unwindTo (-1)).dropKey
      return s.tokens.reverse
    | x :: _ => all (← s.token x) fuel

end Scan

/-- A character that a document can hold. -/
def isAllowed (c : Char) : Bool :=
  let n := c.toNat
  n = 0x9 || n = 0xa || n = 0xd || n = 0x85 || (0x20 ≤ n && n ≤ 0x7e) ||
    (0xa0 ≤ n && n ≤ 0xd7ff) || (0xe000 ≤ n && n ≤ 0xfffd) || 0x10000 ≤ n

/-- The tokens of a document. A mark at its very start is passed over. -/
def Token.ofText (text : List Char) : Except Fault (List Token) :=
  if text.all isAllowed then
    let c := Cursor.ofText text
    let start := if c.sees (· = byteOrderMark) then c.next else c
    Scan.all { cursor := start } (text.length + 2)
  else .error .malformed

end GrammarAudit.Yaml
