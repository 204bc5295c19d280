import GrammarAudit.Grammar.Context
import GrammarAudit.Text.Blank

/-!
# Rule definitions

A definition is a header, a body and a semicolon. The header is a name and a colon, with the word
`fragment` in front of a fragment. Definitions are looked for at every identifier in code.

- `Definition`: name, body and whether it is a fragment.
- `readHeader?`, `readDefinition?`: a header or a whole definition at the start of a text.
- `scanDefinitions`: the definitions of a text, in order.
- `Definition.print`: a definition written out, the way back.
-/

namespace GrammarAudit.Grammar

open Text

/-- A rule definition as it stands in a grammar. -/
structure Definition where
  name : List Char
  body : List Char
  isFragment : Bool
deriving DecidableEq, Repr

/-- The word in front of a fragment. -/
def fragmentWord : List Char := "fragment".toList

/-- Reads a name and a colon: the name and what follows. -/
def readName? (s : List Char) : Option (List Char × List Char) :=
  match s with
  | [] => none
  | c :: _ =>
    if c.isAlpha then
      match trimStart (s.dropWhile isIdentChar) with
      | ':' :: rest => some (s.takeWhile isIdentChar, rest)
      | _ => none
    else none

/-- Reads a header that starts with the word for fragments and at least one blank. -/
def readFragmentName? (s : List Char) : Option (List Char × List Char) :=
  if fragmentWord.isPrefixOf s && ((s.drop fragmentWord.length).head?.map isBlank).getD false then
    readName? (trimStart (s.drop fragmentWord.length))
  else none

/-- Reads a header: whether it is a fragment's, the name and what follows the colon. Without a
name after it, the word for fragments is itself a name. -/
def readHeader? (s : List Char) : Option (Bool × List Char × List Char) :=
  match readFragmentName? s with
  | some (name, rest) => some (true, name, rest)
  | none => (readName? s).map fun (name, rest) => (false, name, rest)

/-- Whether a name starts with a capital letter. -/
def startsUpper (name : List Char) : Bool :=
  (name.head?.map Char.isUpper).getD false

/-- Whether a name starts with a small letter. -/
def startsLower (name : List Char) : Bool :=
  (name.head?.map Char.isLower).getD false

/-- Reads a definition and gives what follows its semicolon. The name of a fragment has to start
with a capital letter. -/
def readDefinition? (s : List Char) : Option (Definition × List Char) := do
  let (isFragment, name, rest) ← readHeader? s
  if isFragment && !startsUpper name then none
  let (body, tail) ← splitTerminator .code rest
  some (⟨name, body, isFragment⟩, tail)

/-! ## Reading makes progress -/

theorem length_dropWhile_le {α : Type} (p : α → Bool) (l : List α) :
    (l.dropWhile p).length ≤ l.length :=
  (List.dropWhile_sublist p).length_le

theorem length_trimStart_le (s : List Char) : (trimStart s).length ≤ s.length :=
  length_dropWhile_le _ s

theorem length_of_readName? {s name rest : List Char} (h : readName? s = some (name, rest)) :
    rest.length < s.length := by
  cases s with
  | nil => simp [readName?] at h
  | cons c cs =>
    simp only [readName?] at h
    split at h
    · split at h
      · next heq =>
        simp only [Option.some.injEq, Prod.mk.injEq] at h
        obtain ⟨-, rfl⟩ := h
        have h₁ := length_trimStart_le ((c :: cs).dropWhile isIdentChar)
        have h₂ := length_dropWhile_le isIdentChar (c :: cs)
        rw [heq] at h₁
        simp only [List.length_cons] at h₁ h₂ ⊢
        omega
      · simp at h
    · simp at h

theorem length_of_readHeader? {s name rest : List Char} {isFragment : Bool}
    (h : readHeader? s = some (isFragment, name, rest)) : rest.length < s.length := by
  unfold readHeader? at h
  split at h
  · next heq =>
    simp only [Option.some.injEq, Prod.mk.injEq] at h
    obtain ⟨-, -, rfl⟩ := h
    unfold readFragmentName? at heq
    split at heq
    · have h₁ := length_of_readName? heq
      have h₂ := length_trimStart_le (s.drop fragmentWord.length)
      simp only [List.length_drop] at h₂
      omega
    · simp at heq
  · simp only [Option.map_eq_some_iff, Prod.mk.injEq, Prod.exists] at h
    obtain ⟨_, _, h, -, rfl, rfl⟩ := h
    exact length_of_readName? h

theorem length_of_splitTerminator {context : Context} {s body tail : List Char}
    (h : splitTerminator context s = some (body, tail)) : tail.length < s.length := by
  induction s generalizing context body with
  | nil => simp [splitTerminator] at h
  | cons c rest ih =>
    unfold splitTerminator at h
    split at h
    · simp only [Option.some.injEq, Prod.mk.injEq] at h
      obtain ⟨-, rfl⟩ := h
      simp
    · simp only [Option.map_eq_some_iff, Prod.mk.injEq, Prod.exists] at h
      obtain ⟨_, _, h, -, rfl⟩ := h
      have := ih h
      simp only [List.length_cons]
      omega

theorem length_of_readDefinition? {s tail : List Char} {d : Definition}
    (h : readDefinition? s = some (d, tail)) : tail.length < s.length := by
  unfold readDefinition? at h
  simp only [Option.bind_eq_bind, Option.bind_eq_some_iff, Prod.exists] at h
  obtain ⟨_, _, _, hh, h⟩ := h
  split at h
  · simp at h
  · simp only [Option.bind_eq_some_iff, Prod.exists] at h
    obtain ⟨_, _, ht, h⟩ := h
    simp only [Option.some.injEq, Prod.mk.injEq] at h
    obtain ⟨-, rfl⟩ := h
    have h₁ := length_of_readHeader? hh
    have h₂ := length_of_splitTerminator ht
    omega

/-! ## Scanning -/

/-- The definitions in a text, given the context it starts in and whether an identifier character
comes right before it. -/
def scanFrom (context : Context) (afterIdent : Bool) (s : List Char) : List Definition :=
  match s with
  | [] => []
  | c :: rest =>
    if context = .code ∧ isIdentStart c ∧ !afterIdent then
      match _h : readDefinition? (c :: rest) with
      | some (definition, tail) => definition :: scanFrom .code false tail
      | none => scanFrom (context.step c) (isIdentChar c) rest
    else scanFrom (context.step c) (isIdentChar c) rest
termination_by s.length
decreasing_by
  · exact length_of_readDefinition? _h
  · simp
  · simp

/-- The definitions in a text, in order. -/
def scanDefinitions (s : List Char) : List Definition :=
  scanFrom .code false s

/-- A definition written out on a line of its own. -/
def Definition.print (d : Definition) : List Char :=
  (if d.isFragment then fragmentWord ++ [' '] else []) ++ d.name ++ [' ', ':'] ++ d.body ++
    [';', '\n']

end GrammarAudit.Grammar
