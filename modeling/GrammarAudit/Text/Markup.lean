/-!
# Markup for terminals

Texts for a terminal hold tags in square brackets that switch a style on and off. A text that is
meant literally has a backslash before everything that reads as a tag.

- `escape`: a text that is shown as it is.
- `styled`: a text in a style.
- `visible`: what is left to see where there are no styles.
-/

namespace GrammarAudit.Text

/-- Whether what follows an opening bracket makes it a tag: a small letter or one of three signs,
and a closing bracket before the next opening one. -/
def startsTag : List Char → Bool
  | [] => false
  | c :: rest =>
    (('a' ≤ c && c ≤ 'z') || c ∈ ['#', '/', '@']) &&
      (rest.dropWhile fun x => x ≠ '[' && x ≠ ']').head? = some ']'

/-- A text with its tags escaped, after a number of backslashes. Those right before a tag are
doubled. -/
def escapeTags (slashes : Nat) : List Char → List Char
  | [] => List.replicate slashes '\\'
  | c :: rest =>
    if c = '\\' then escapeTags (slashes + 1) rest
    else
      let before := if c = '[' && startsTag rest then 2 * slashes + 1 else slashes
      List.replicate before '\\' ++ c :: escapeTags 0 rest

/-- A text whose last backslash, if it stands alone, is doubled. -/
def closeSlash (s : List Char) : List Char :=
  match s.reverse with
  | ['\\'] => s ++ ['\\']
  | '\\' :: c :: _ => if c = '\\' then s else s ++ ['\\']
  | _ => s

/-- A text that is shown as it is. -/
def escape (s : String) : String :=
  String.ofList (closeSlash (escapeTags 0 s.toList))

/-- A text in a style. -/
def styled (style text : String) : String :=
  "[" ++ style ++ "]" ++ text ++ "[/" ++ style ++ "]"

/-- A text without its tags, after a number of backslashes. One backslash before a tag shows the
tag, and two show one backslash. `inTag` drops the rest of a tag. -/
def dropTags (inTag : Bool) (slashes : Nat) : List Char → List Char
  | [] => List.replicate slashes '\\'
  | c :: rest =>
    if inTag then dropTags (c ≠ ']') 0 rest
    else if c = '\\' then dropTags false (slashes + 1) rest
    else if c = '[' && startsTag rest then
      List.replicate (slashes / 2) '\\' ++
        if slashes % 2 = 0 then dropTags true 0 rest else c :: dropTags false 0 rest
    else List.replicate slashes '\\' ++ c :: dropTags false 0 rest

/-- What is left to see of a text where there are no styles. -/
def visible (s : String) : String :=
  String.ofList (dropTags false 0 s.toList)

end GrammarAudit.Text
