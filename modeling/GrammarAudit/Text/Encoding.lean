/-!
# Text in files

Files hold text in UTF-8. Lines may end in any of the three usual ways; in memory a line feed ends
them.

- `unifyBreaks`: text with all line ends alike.
- `ofBytes?`: the text of a file.
-/

namespace GrammarAudit.Text

/-- A text in which carriage returns, alone or before a line feed, are line feeds. -/
def unifyBreaks : List Char → List Char
  | [] => []
  | '\r' :: '\n' :: rest => '\n' :: unifyBreaks rest
  | c :: rest => (if c = '\r' then '\n' else c) :: unifyBreaks rest

/-- The text of a file, unless its bytes are no text. -/
def ofBytes? (bytes : ByteArray) : Option (List Char) :=
  (String.fromUTF8? bytes).map fun s => unifyBreaks s.toList

end GrammarAudit.Text
