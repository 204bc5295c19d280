import GrammarAudit.Proofs.Grammar.Ending
import GrammarAudit.Proofs.Text.Line

/-!
# The coordinates of a rule

A rule carries a line and a column for its name and for the place past its end. Both are found by
plain searches in the text as written. Read back by the lines of that text they lead to what the
searches have found: the name in front of its colon, and the first semicolon after the name.

- `declarationSpan_of_semicolon`, `declarationSpan_of_no_semicolon`: what is reported for a name
  that is located.
- `Rule.DecodesAt`: coordinates that lead back to an offset.
- `decodes_of_mem_extractRules`: the coordinates of a rule lead back to the name that is located.
-/

namespace GrammarAudit

open Text Grammar

/-- The coordinates of a rule lead back to its name at an offset. The end leads back to the first
semicolon after the name and comes later; without a semicolon it is the start once more. -/
structure Rule.DecodesAt (rule : Rule) (source : List Char) (offset : Nat) : Prop where
  start : rule.start.offset? source = some offset
  declared : ∃ gap after, AllBlank gap ∧
    source.drop offset = rule.name.toList ++ (gap ++ ':' :: after)
  stop : ∀ before after, source.drop (offset + rule.name.length) = before ++ ';' :: after →
    ';' ∉ before →
      Place.offset? source ⟨rule.endLine, rule.endColumn - 1⟩ =
          some (offset + rule.name.length + before.length) ∧
        rule.start.Before rule.stop
  unended : ';' ∉ source.drop (offset + rule.name.length) → rule.stop = rule.start

namespace Grammar

variable {source name : List Char} {offset : Nat}

/-- The search for a semicolon finds nothing where there is none. -/
theorem semicolonFrom?_of_not_mem (h : ';' ∉ source.drop offset) :
    semicolonFrom? source offset = none := by
  rw [semicolonFrom?, Option.map_eq_none_iff, List.findIdx?_eq_none_iff]
  exact fun c hc => decide_eq_false fun heq => h (heq ▸ hc)

/-- A name that is located is reported at its place. -/
theorem declarationSpan_start (hfind : findDeclaration? source name = some offset) :
    (declarationSpan source name).1 = place source offset := by
  rw [declarationSpan, hfind]
  dsimp only
  split <;> rfl

/-- What is located ends one column after the first semicolon from the end of the name on. -/
theorem declarationSpan_of_semicolon (hfind : findDeclaration? source name = some offset)
    {before after : List Char} (hbefore : ';' ∉ before)
    (hdrop : source.drop (offset + name.length) = before ++ ';' :: after) :
    (declarationSpan source name).2 =
      { place source (offset + name.length + before.length : Nat) with
        column := columnOf source (offset + name.length + before.length : Nat) + 1 } := by
  rw [declarationSpan, hfind]
  dsimp only
  rw [semicolonFrom?_of_drop hbefore hdrop]

/-- What is located ends where it starts if no semicolon follows. -/
theorem declarationSpan_of_no_semicolon (hfind : findDeclaration? source name = some offset)
    (hnone : ';' ∉ source.drop (offset + name.length)) :
    (declarationSpan source name).2 = (declarationSpan source name).1 := by
  rw [declarationSpan, hfind]
  dsimp only
  rw [semicolonFrom?_of_not_mem hnone]

/-- What is not located is reported at the start of the text. -/
theorem declarationSpan_of_none (hfind : findDeclaration? source name = none) :
    declarationSpan source name = (⟨1, 0⟩, ⟨1, 0⟩) := by
  rw [declarationSpan, hfind]

/-- The span of a rule is that of its name. -/
theorem span_of_mem_extractRules {source cleaned : List Char} {rule : Rule}
    (h : rule ∈ extractRules source cleaned) :
    (rule.start, rule.stop) = declarationSpan source rule.name.toList := by
  obtain ⟨d, hrule, -⟩ := exists_definition_of_mem_extractRules h
  have hname : rule.name.toList = d.name := by
    rw [hrule]
    exact String.toList_ofList
  rw [hname, hrule]
  rfl

/-- **The coordinates of a rule lead back to what was found.** Where the name of the rule is
located, they lead back to it and to the first semicolon after it; otherwise the rule is reported
at the start of the text. -/
theorem decodes_of_mem_extractRules {source cleaned : List Char} {rule : Rule}
    (h : rule ∈ extractRules source cleaned) :
    (∀ offset, findDeclaration? source rule.name.toList = some offset →
      rule.DecodesAt source offset) ∧
    (findDeclaration? source rule.name.toList = none →
      rule.start = ⟨1, 0⟩ ∧ rule.stop = ⟨1, 0⟩) := by
  have hspan := span_of_mem_extractRules h
  have hstart : rule.start = (declarationSpan source rule.name.toList).1 := by rw [← hspan]
  have hstop : rule.stop = (declarationSpan source rule.name.toList).2 := by rw [← hspan]
  refine ⟨fun offset hfind => ?_, fun hfind => ?_⟩
  · obtain ⟨-, gap, after, hgap, hdeclared⟩ := (findDeclaration?_eq_some_iff.mp hfind).1
    have hlength := congrArg List.length hdeclared
    simp only [List.length_drop, List.length_append, List.length_cons] at hlength
    rw [declarationSpan_start hfind] at hstart
    refine ⟨?start, ⟨gap, after, hgap, hdeclared⟩, ?stop, ?unended⟩
    case start =>
      rw [hstart]
      exact offset?_place (by omega)
    case stop =>
      intro before after hdrop hbefore
      rw [← String.length_toList] at hdrop ⊢
      rw [declarationSpan_of_semicolon hfind hbefore hdrop] at hstop
      have hinside := congrArg List.length hdrop
      simp only [List.length_drop, List.length_append, List.length_cons] at hinside
      constructor
      · have hline : rule.endLine =
            lineOf source (offset + rule.name.toList.length + before.length : Nat) :=
          congrArg Place.line hstop
        have hcolumn : rule.endColumn =
            columnOf source (offset + rule.name.toList.length + before.length : Nat) + 1 :=
          congrArg Place.column hstop
        rw [hline, hcolumn, Int.add_sub_cancel]
        exact offset?_place (by omega)
      · -- the place past the semicolon is that of the next offset
        rw [hstart, hstop, ← place_succ (getElem?_of_drop hdrop) (by decide)]
        exact place_before (by omega) (by omega)
    case unended =>
      intro hnone
      rw [← String.length_toList] at hnone
      rw [hstop, hstart, declarationSpan_of_no_semicolon hfind hnone, declarationSpan_start hfind]
  · rw [declarationSpan_of_none hfind] at hstart hstop
    exact ⟨hstart, hstop⟩

/-- A rule on three lines whose first semicolon stands in a literal on the second. -/
theorem decodes_of_three_lines :
    let source := "grammar G;\nfragment\n  A : 'x'\n  ';' ;".toList
    let rule : Rule := ⟨"A", .fragment, 3, 2, 4, 4, "fragment A : 'x'\n  ';' ;", 1, [], []⟩
    rule ∈ extractRules source (strip source) ∧
      findDeclaration? source rule.name.toList = some 22 ∧ rule.DecodesAt source 22 ∧
        Place.offset? source ⟨4, 3⟩ = some 33 := by
  intro source rule
  have hmem : rule ∈ extractRules source (strip source) := by decide +kernel
  have hfind : findDeclaration? source rule.name.toList = some 22 := by decide +kernel
  have hdecodes := (decodes_of_mem_extractRules hmem).1 22 hfind
  have hstop := (hdecodes.stop " : 'x'\n  '".toList "' ;".toList (by decide) (by decide)).1
  have hsemicolon : 22 + rule.name.length + " : 'x'\n  '".toList.length = 33 := by decide
  rw [hsemicolon] at hstop
  exact ⟨hmem, hfind, hdecodes, hstop⟩

end Grammar

end GrammarAudit
