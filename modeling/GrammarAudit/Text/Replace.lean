/-!
# Replacing matches

A text is searched from left to right for the places where a pattern matches. Each match is
replaced, and the search goes on right after it.

- `Pattern`: what follows a match at the start of a text.
- `replaceMatches`: a text with every match replaced.
- `eraseMatches`: a text with every match dropped.
- `after?`, `afterFirst?`: what follows a given word, at the start of a text or anywhere in it.
-/

namespace GrammarAudit.Text

/-- What follows the match at the start of a text, given whether a line starts there. -/
abbrev Pattern := Bool → List Char → Option (List Char)

/-- Replaces every match of a pattern. A match that covers no character does not count. -/
def replaceMatches (replacement : List Char) (pattern : Pattern) (lineStart : Bool)
    (s : List Char) : List Char :=
  match s with
  | [] => []
  | c :: rest =>
    match pattern lineStart (c :: rest) with
    | some tail =>
      if tail.length ≤ rest.length then
        replacement ++ replaceMatches replacement pattern false tail
      else
        c :: replaceMatches replacement pattern (c = '\n') rest
    | none => c :: replaceMatches replacement pattern (c = '\n') rest
termination_by s.length

/-- A text with every match of a pattern dropped. -/
def eraseMatches (pattern : Pattern) (s : List Char) : List Char :=
  replaceMatches [] pattern true s

/-- What follows a word at the start of a text. -/
def after? (word s : List Char) : Option (List Char) :=
  if word.isPrefixOf s then some (s.drop word.length) else none

/-- What follows the first occurrence of a word in a text. -/
def afterFirst? (word : List Char) : List Char → Option (List Char)
  | [] => after? word []
  | c :: rest => (after? word (c :: rest)).or (afterFirst? word rest)

end GrammarAudit.Text
