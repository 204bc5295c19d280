import GrammarAudit.Distinct
import GrammarAudit.Grammar.Alternative
import GrammarAudit.Grammar.Definition
import GrammarAudit.Grammar.Header
import GrammarAudit.Rule
import GrammarAudit.Text.WordChar

/-!
# Rule discovery

Definitions are scanned in the stripped text and located in the text as written. Fragments come
first, then lexer rules, then parser rules, each kind in the order of its first definitions; of
several definitions of a name the first one counts.

- `findDeclaration?`: where a name is declared in a text.
- `declaresFragment`: whether the text declares a name as a fragment anywhere, in comments too.
- `Definition.toRule`: the rule of a definition.
- `extractRules`, `rulesOf`: the rules of a grammar.
-/

namespace GrammarAudit.Grammar

open Text

/-- Whether a name, any blanks and a colon start the text. -/
def declares (name s : List Char) : Bool :=
  match after? name s with
  | some rest => (trimStart rest).head? = some ':'
  | none => false

/-- The first offset at which a name is declared, given whether the text starts a declaration
there: at the very start of a text or after a blank. -/
def findDeclarationFrom? (free : Bool) (name : List Char) : List Char → Option Nat
  | [] => none
  | c :: rest =>
    if free && declares name (c :: rest) then some 0
    else (findDeclarationFrom? (isBlank c) name rest).map (· + 1)

/-- The offset of the first declaration of a name. -/
def findDeclaration? (s name : List Char) : Option Nat :=
  findDeclarationFrom? true name s

/-- Whether the word for fragments, one or more blanks and a declaration of the name start the
text. -/
def fragmentStarts (name s : List Char) : Bool :=
  match after? fragmentWord s >>= afterBlanks? with
  | some rest => declares name rest
  | none => false

/-- Whether a fragment declaration of the name starts outside a word, given whether the character
before the text is part of one. -/
def declaresFragmentFrom (afterWord : Bool) (name : List Char) : List Char → Bool
  | [] => false
  | c :: rest =>
    (!afterWord && fragmentStarts name (c :: rest)) ||
      declaresFragmentFrom (isWordChar c) name rest

/-- Whether a text declares a name as a fragment anywhere. -/
def declaresFragment (s name : List Char) : Bool :=
  declaresFragmentFrom false name s

/-- The text of a rule, rebuilt from its definition. -/
def Definition.ruleText (kind : Kind) (d : Definition) : List Char :=
  (if kind = .fragment then fragmentWord ++ [' '] else []) ++ d.name ++ [' ', ':'] ++ d.body ++
    [';']

/-- The offset of the first semicolon at or after an offset. -/
def semicolonFrom? (s : List Char) (offset : Nat) : Option Nat :=
  ((s.drop offset).findIdx? (· = ';')).map (· + offset)

/-- Where a name is declared and where the first semicolon after it ends: the start of the text
and nothing where there is no declaration, and an empty span where there is no semicolon. -/
def declarationSpan (s name : List Char) : Place × Place :=
  match findDeclaration? s name with
  | none => (⟨1, 0⟩, ⟨1, 0⟩)
  | some offset =>
    let start := place s offset
    match semicolonFrom? s (offset + name.length) with
    | none => (start, start)
    | some stop => (start, { place s stop with column := columnOf s stop + 1 })

/-- The rule of a definition, located in the text as written. -/
def Definition.toRule (source : List Char) (kind : Kind) (d : Definition) : Rule :=
  let text := d.ruleText kind
  let (start, stop) := declarationSpan source d.name
  { name := String.ofList d.name
    kind := kind
    line := start.line
    column := start.column
    endLine := stop.line
    endColumn := stop.column
    text := String.ofList text
    alternativeCount := countAlternatives text
    references := Grammar.references text
    referencedBy := [] }

/-- The definitions that make fragments. -/
def fragmentDefinitions (definitions : List Definition) : List Definition :=
  firstPerKey Definition.name (definitions.filter Definition.isFragment)

/-- The definitions that make lexer rules: names with a capital that nothing declares as a
fragment, neither among the definitions nor in the text as written. -/
def lexerDefinitions (source : List Char) (definitions : List Definition) : List Definition :=
  let fragments := (fragmentDefinitions definitions).map Definition.name
  firstPerKey Definition.name <| definitions.filter fun d =>
    !d.isFragment && startsUpper d.name && d.name ∉ fragments && !declaresFragment source d.name

/-- The definitions that make parser rules: names with a small letter that are no keywords. -/
def parserDefinitions (definitions : List Definition) : List Definition :=
  firstPerKey Definition.name <| definitions.filter fun d =>
    !d.isFragment && startsLower d.name && !isKeyword (String.ofList d.name)

/-- The rules that a stripped text defines, located in the text as written. -/
def extractRules (source cleaned : List Char) : List Rule :=
  let definitions := scanDefinitions cleaned
  (fragmentDefinitions definitions).map (·.toRule source .fragment) ++
    (lexerDefinitions source definitions).map (·.toRule source .lexer) ++
    (parserDefinitions definitions).map (·.toRule source .parser)

/-- The rules of a grammar. -/
def rulesOf (source : List Char) : List Rule :=
  extractRules source (strip source)

end GrammarAudit.Grammar
