import GrammarAudit.Proofs.Grammar.Declaration
import GrammarAudit.Proofs.Text.Place

/-!
# Locating names below a line

A line in front of a text moves the place at which a name is located one line down, unless the line
declares the name itself: the search for a declaration starts with it.

- `DeclaredInLine`: a name that the line declares.
- `findDeclaration?_line_append`: what is located below a line.
- `declarationSpan_line_append`: the places that are reported below a line.
- `declarationSpan_of_declaredInLine`: a name that the line declares is reported on it.
-/

namespace GrammarAudit.Grammar

open Text

/-- The line declares the name. The blanks and the colon after the name may stand in the text below
the line. -/
def DeclaredInLine (line s name : List Char) : Prop :=
  ∃ offset ≤ line.length, DeclaredAt (line ++ '\n' :: s) name offset

variable {line s name : List Char}

/-- Below the line the same names are declared as without it. -/
theorem declaredAt_line_append_iff {offset : Nat} :
    DeclaredAt (line ++ '\n' :: s) name (line.length + 1 + offset) ↔ DeclaredAt s name offset := by
  have hfeed : isBlank '\n' = true := by decide
  rw [DeclaredAt, take_line_append, drop_line_append, lastIs_append, lastIs_cons, hfeed]
  rfl

/-- An offset past the line is one of the text below. -/
theorem exists_offset_below {offset : Nat} (h : ¬offset ≤ line.length) :
    ∃ below, offset = line.length + 1 + below :=
  ⟨offset - (line.length + 1), by omega⟩

theorem findDeclaration?_line_append (h : ¬DeclaredInLine line s name) :
    findDeclaration? (line ++ '\n' :: s) name =
      (findDeclaration? s name).map (line.length + 1 + ·) := by
  cases hfind : findDeclaration? s name with
  | none =>
    rw [Option.map_none, findDeclaration?_eq_none_iff]
    intro offset hoffset
    by_cases hle : offset ≤ line.length
    · exact h ⟨offset, hle, hoffset⟩
    · obtain ⟨below, rfl⟩ := exists_offset_below hle
      exact findDeclaration?_eq_none_iff.mp hfind below (declaredAt_line_append_iff.mp hoffset)
  | some found =>
    obtain ⟨hfound, hfirst⟩ := findDeclaration?_eq_some_iff.mp hfind
    rw [Option.map_some, findDeclaration?_eq_some_iff]
    refine ⟨declaredAt_line_append_iff.mpr hfound, fun offset hlt hoffset => ?_⟩
    by_cases hle : offset ≤ line.length
    · exact h ⟨offset, hle, hoffset⟩
    · obtain ⟨below, rfl⟩ := exists_offset_below hle
      exact hfirst below (Nat.lt_of_add_lt_add_left hlt) (declaredAt_line_append_iff.mp hoffset)

theorem semicolonFrom?_line_append (line s : List Char) (offset : Nat) :
    semicolonFrom? (line ++ '\n' :: s) (line.length + 1 + offset) =
      (semicolonFrom? s offset).map (line.length + 1 + ·) := by
  rw [semicolonFrom?, semicolonFrom?, drop_line_append, Option.map_map]
  congr 1
  funext i
  show i + (line.length + 1 + offset) = line.length + 1 + (i + offset)
  omega

/-! ## Places -/

/-- What is located in the text is reported one line further down. -/
theorem declarationSpan_line_append (hline : '\n' ∉ line) (h : ¬DeclaredInLine line s name)
    (hfind : findDeclaration? s name ≠ none) :
    declarationSpan (line ++ '\n' :: s) name =
      ((declarationSpan s name).1.down, (declarationSpan s name).2.down) := by
  obtain ⟨found, hfound⟩ := Option.ne_none_iff_exists'.mp hfind
  unfold declarationSpan
  rw [findDeclaration?_line_append h, hfound]
  simp only [Option.map_some, Nat.add_assoc (line.length + 1), semicolonFrom?_line_append,
    place_line_append hline]
  cases semicolonFrom? s (found + name.length) with
  | none => rfl
  | some stop =>
    simp only [Option.map_some, place_line_append hline, columnOf_line_append]
    rfl

/-- What is not located in the text is still reported at its start. -/
theorem declarationSpan_line_append_of_none (h : ¬DeclaredInLine line s name)
    (hfind : findDeclaration? s name = none) :
    declarationSpan (line ++ '\n' :: s) name = declarationSpan s name := by
  unfold declarationSpan
  rw [findDeclaration?_line_append h, hfind]
  rfl

/-- A name that the line declares is reported on the line. -/
theorem declarationSpan_of_declaredInLine (hline : '\n' ∉ line) (h : DeclaredInLine line s name) :
    (declarationSpan (line ++ '\n' :: s) name).1.line = 1 := by
  obtain ⟨offset, hle, hoffset⟩ := h
  cases hfind : findDeclaration? (line ++ '\n' :: s) name with
  | none => exact absurd hoffset (findDeclaration?_eq_none_iff.mp hfind offset)
  | some found =>
    -- the first declaration comes no later than the one in the line
    have hfirst : found ≤ line.length := by
      refine Nat.le_of_not_lt fun hlt => ?_
      exact (findDeclaration?_eq_some_iff.mp hfind).2 offset (by omega) hoffset
    have hplace : (place (line ++ '\n' :: s) found).line = 1 := lineOf_of_le hline s hfirst
    unfold declarationSpan
    rw [hfind]
    dsimp only
    split
    · exact hplace
    · exact hplace

end GrammarAudit.Grammar
