import GrammarAudit.Grammar.Reference
import GrammarAudit.Text.LowerCase

/-!
# Alternatives

The bars of a rule separate its alternatives. For these figures a quote opens or closes a literal
unless the character before it is a backslash, whatever stands before that.

- `countAlternatives`: one more than the bars outside literals and parentheses.
- `nestingDepth`: the deepest nesting of parentheses and square brackets outside literals.
- `splitAlternatives`: the alternatives themselves, cut at the bars outside literals and brackets.
- `firstToken`: the literal or identifier that an alternative starts with.
-/

namespace GrammarAudit.Grammar

open Text

/-- The literal that is open after a quote, given the one that is open before it. -/
def toggleLiteral (opened : Option Char) (quote : Char) : Option Char :=
  match opened with
  | none => some quote
  | some mark => if quote = mark then none else some mark

/-- A quote that opens or closes a literal: one that no backslash precedes. -/
def isLiteralMark (afterBackslash : Bool) (c : Char) : Bool :=
  isQuote c && !afterBackslash

/-- The characters outside literals, without the quotes that open and close them. -/
def codeChars (opened : Option Char) (afterBackslash : Bool) : List Char → List Char
  | [] => []
  | c :: rest =>
    if isLiteralMark afterBackslash c then codeChars (toggleLiteral opened c) (c = '\\') rest
    else if opened = none then c :: codeChars opened (c = '\\') rest
    else codeChars opened (c = '\\') rest

/-- The number of bars outside parentheses. -/
def countBars (depth : Int) : List Char → Nat
  | [] => 0
  | c :: rest =>
    if c = '(' then countBars (depth + 1) rest
    else if c = ')' then countBars (depth - 1) rest
    else if c = '|' ∧ depth = 0 then countBars depth rest + 1
    else countBars depth rest

/-- The number of alternatives of a rule. -/
def countAlternatives (ruleText : List Char) : Nat :=
  countBars 0 (codeChars none false ruleText) + 1

/-- The greatest depth of parentheses and square brackets reached from a depth on, or `deepest`. -/
def deepestFrom (depth deepest : Int) : List Char → Int
  | [] => deepest
  | c :: rest =>
    if c = '(' ∨ c = '[' then deepestFrom (depth + 1) (max deepest (depth + 1)) rest
    else if c = ')' ∨ c = ']' then deepestFrom (depth - 1) deepest rest
    else deepestFrom depth deepest rest

/-- The deepest nesting in a rule. -/
def nestingDepth (ruleText : List Char) : Int :=
  deepestFrom 0 0 (codeChars none false ruleText)

/-- The change of bracket depth at a character. -/
def bracketChange (c : Char) : Int :=
  if c ∈ ['(', '[', '{'] then 1 else if c ∈ [')', ']', '}'] then -1 else 0

/-- Puts a character in front of the first piece. -/
def consFirst (c : Char) : List (List Char) → List (List Char)
  | [] => [[c]]
  | piece :: pieces => (c :: piece) :: pieces

/-- The pieces of a text between the bars outside literals and brackets. -/
def splitBars (opened : Option Char) (afterBackslash : Bool) (depth : Int) :
    List Char → List (List Char)
  | [] => [[]]
  | c :: rest =>
    let opened' := if isLiteralMark afterBackslash c then toggleLiteral opened c else opened
    if opened' = none then
      if c = '|' ∧ depth = 0 then [] :: splitBars opened' false depth rest
      else consFirst c (splitBars opened' (c = '\\') (depth + bracketChange c) rest)
    else consFirst c (splitBars opened' (c = '\\') depth rest)

/-- A text without the semicolon at its end. -/
def withoutTerminator (s : List Char) : List Char :=
  if s.getLast? = some ';' then s.dropLast else s

/-- Trims the pieces of a body. The last one is dropped when it is blank and loses its semicolon
otherwise. -/
def trimPieces : List (List Char) → List (List Char)
  | [] => []
  | [last] => if trim last = [] then [] else [withoutTerminator (trim last)]
  | piece :: pieces => trim piece :: trimPieces pieces

/-- The alternatives of a rule; a text without a colon is its own only alternative. -/
def splitAlternatives (ruleText : List Char) : List (List Char) :=
  match body? ruleText with
  | none => [ruleText]
  | some body => trimPieces (splitBars none false 0 body)

/-- The literal or identifier at the start of an alternative, after any blanks; empty when it
starts with anything else. -/
def firstToken (alternative : List Char) : List Char :=
  match trimStart alternative with
  | [] => []
  | c :: rest =>
    if isQuote c then
      if c ∈ rest then c :: rest.takeWhile (· != c) ++ [c] else []
    else if isIdentStart c then c :: rest.takeWhile isIdentChar
    else []

/-- The first token in lower case, by which alternatives are compared. -/
def tokenKey (alternative : List Char) : String :=
  String.ofList (lower (firstToken alternative))

end GrammarAudit.Grammar
