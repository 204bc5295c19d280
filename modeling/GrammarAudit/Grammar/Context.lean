import GrammarAudit.Grammar.Enclosure

/-!
# Contexts and rule terminators

Where a character stands, in code or inside an enclosure, follows from the characters before it
alone. A rule ends at the first semicolon in code.

- `Context`: where the next character stands.
- `Context.step`: how a character changes it.
- `splitTerminator`: a text cut at its first semicolon in code.
- `ruleEnd`: the position of that semicolon.
-/

namespace GrammarAudit.Grammar

/-- Where a character stands: in code, in a literal or a character set, possibly right after a
backslash, or in an action block inside `outer` others. -/
inductive Context where
  | code
  | literal (mark : Char) (escaped : Bool)
  | charSet (escaped : Bool)
  | block (outer : Nat)
deriving DecidableEq, Repr

/-- The context after a character. -/
def Context.step : Context → Char → Context
  | code, c =>
    if isQuote c then literal c false
    else if c = '[' then charSet false
    else if c = '{' then block 0
    else code
  | literal mark true, _ => literal mark false
  | literal mark false, c =>
    if c = '\\' then literal mark true
    else if c = mark ∨ c = '\n' then code
    else literal mark false
  | charSet true, _ => charSet false
  | charSet false, c =>
    if c = '\\' then charSet true
    else if c = ']' then code
    else charSet false
  | block outer, c =>
    if c = '{' then block (outer + 1)
    else if c = '}' then (match outer with | 0 => code | n + 1 => block n)
    else block outer

/-- The context after a text. -/
def Context.after (context : Context) (s : List Char) : Context :=
  s.foldl Context.step context

/-- A text cut at its first semicolon in code: what comes before it and what comes after. -/
def splitTerminator (context : Context) : List Char → Option (List Char × List Char)
  | [] => none
  | c :: rest =>
    if context = .code ∧ c = ';' then some ([], rest)
    else (splitTerminator (context.step c) rest).map fun (body, tail) => (c :: body, tail)

/-- The position of the first semicolon in code at or after `pos`, or the length of the text. -/
def ruleEnd (s : List Char) (pos : Nat) : Nat :=
  match splitTerminator .code (s.drop pos) with
  | some (body, _) => pos + body.length
  | none => s.length

end GrammarAudit.Grammar
