import GrammarAudit.Proofs.Grammar.Heading

/-!
# Scanning a text that grows

The scan for definitions and the search for a terminator go through a text in the same contexts.
So where the search finds nothing, the scan finds nothing either: a heading whose rule is not
terminated is the last thing that can be found.

- `scanFrom_eq_nil`: a text without a terminator in code has no definitions.
- `readDefinition?_append`: a definition that has been read does not depend on what follows.
- `splitTerminator_eq_none_of_readDefinition?`: what a longer text completes was not terminated.
- `scanDefinitions_isPrefix`: appending to a text keeps the definitions found in it.
-/

namespace GrammarAudit.Grammar

/-! ## Reading and what follows -/

/-- A definition that has been read is read again when the text goes on. -/
theorem readDefinition?_append {s tail : List Char} {d : Definition}
    (h : readDefinition? s = some (d, tail)) (t : List Char) :
    readDefinition? (s ++ t) = some (d, tail ++ t) := by
  obtain ⟨head, hheading, hcapital, hclosed, rfl⟩ := readDefinition?_eq_some_iff.mp h
  exact readDefinition?_eq_some_iff.mpr ⟨head, hheading, hcapital, hclosed, by simp⟩

/-- A definition reaches from its heading to the first terminator of the text. -/
theorem splitTerminator_of_readDefinition? {s tail : List Char} {d : Definition}
    (h : readDefinition? s = some (d, tail)) :
    ∃ head, Heading d.isFragment d.name head ∧
      splitTerminator .code s = some (head ++ d.body, tail) := by
  obtain ⟨head, hheading, -, hclosed, rfl⟩ := readDefinition?_eq_some_iff.mp h
  exact ⟨head, hheading,
    splitTerminator_code_iff.mpr ⟨hheading.closed.append hclosed, by simp⟩⟩

/-- A definition that only a longer text holds was not terminated in the shorter one. -/
theorem splitTerminator_eq_none_of_readDefinition? {s t tail : List Char} {d : Definition}
    (long : readDefinition? (s ++ t) = some (d, tail)) (short : readDefinition? s = none) :
    splitTerminator .code s = none := by
  obtain ⟨head, hheading, hcapital, hclosed, heq⟩ := readDefinition?_eq_some_iff.mp long
  rw [Option.eq_none_iff_forall_ne_some]
  rintro ⟨body, rest⟩ hsplit
  -- the first terminator of the shorter text is the one at which the definition ends
  have hlong : splitTerminator .code (s ++ t) = some (head ++ d.body, tail) :=
    splitTerminator_code_iff.mpr ⟨hheading.closed.append hclosed, by rw [heq, List.append_assoc]⟩
  rw [splitTerminator_append_of_some hsplit t] at hlong
  cases hlong
  have hs := (splitTerminator_code_iff.mp hsplit).2
  rw [readDefinition?_eq_some_iff.mpr
    ⟨head, hheading, hcapital, hclosed, by rw [hs, List.append_assoc]⟩] at short
  cases short

/-! ## The scan -/

/-- A text in which no semicolon stands in code has no definitions. -/
theorem scanFrom_eq_nil {context : Context} {afterIdent : Bool} {s : List Char}
    (h : splitTerminator context s = none) : scanFrom context afterIdent s = [] := by
  fun_induction scanFrom context afterIdent s with
  | case1 => rfl
  | case2 context afterIdent c rest hc d tail hread ih =>
    obtain ⟨head, -, hsplit⟩ := splitTerminator_of_readDefinition? hread
    rw [hc.1, hsplit] at h
    cases h
  | case3 context afterIdent c rest hc hread ih =>
    exact ih (splitTerminator_cons_eq_none_iff.mp h).2
  | case4 context afterIdent c rest hc ih =>
    exact ih (splitTerminator_cons_eq_none_iff.mp h).2

/-- The scan finds all that it found before when the text goes on. -/
theorem scanFrom_isPrefix (context : Context) (afterIdent : Bool) (s t : List Char) :
    scanFrom context afterIdent s <+: scanFrom context afterIdent (s ++ t) := by
  fun_induction scanFrom context afterIdent s with
  | case1 => exact List.nil_prefix
  | case2 context afterIdent c rest hc d tail hread ih =>
    rw [List.cons_append, scanFrom, if_pos hc]
    have hlong := readDefinition?_append hread t
    rw [List.cons_append] at hlong
    split
    · next hsome =>
      rw [hlong] at hsome
      cases hsome
      exact List.cons_prefix_cons.mpr ⟨rfl, ih⟩
    · next hnone =>
      rw [hlong] at hnone
      cases hnone
  | case3 context afterIdent c rest hc hread ih =>
    rw [List.cons_append, scanFrom, if_pos hc]
    split
    · -- the heading is only now terminated, so nothing came after it
      next hsome =>
      have hnone := splitTerminator_eq_none_of_readDefinition? (s := c :: rest) hsome hread
      rw [← hc.1] at hnone
      rw [scanFrom_eq_nil (splitTerminator_cons_eq_none_iff.mp hnone).2]
      exact List.nil_prefix
    · exact ih
  | case4 context afterIdent c rest hc ih =>
    rw [List.cons_append, scanFrom, if_neg hc]
    exact ih

/-- **Prefix stability of rule discovery**: appending anything to a text neither removes nor
reorders nor alters a definition that was found in it. -/
theorem scanDefinitions_isPrefix (t s : List Char) :
    scanDefinitions t <+: scanDefinitions (t ++ s) :=
  scanFrom_isPrefix .code false t s

end GrammarAudit.Grammar
