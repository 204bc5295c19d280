import GrammarAudit.Proofs.Grammar.Identifier
import GrammarAudit.Proofs.Grammar.Registration
import GrammarAudit.Report.Run

/-!
# Reserved words among names

No body mentions a reserved word. The names of rules are compared with the reserved words only
where they start with a small letter, and one reserved word starts with a capital. So a rule can
have that one word for a name, and then nothing can mention the rule.

- `endOfInput`, `isKeyword_iff_of_startsUpper`: the reserved word that starts with a capital.
- `not_isKeyword_of_mem_references`, `not_isKeyword_of_mem_symbolReferences`: what bodies mention.
- `isKeyword_name_iff`: the reserved word that a rule can be named by.
- `exists_reserved_iff`: when a rule is.
- `reserved_of_extractRules`: the three of them for the rules of any text.
- `reserved_rule_of_capital`: a rule that its grammar uses and that counts as unused.
-/

namespace GrammarAudit.Grammar

open Text

/-- The reserved word that stands for the end of the input. -/
def endOfInput : String := "EOF"

/-- Of the reserved words only one starts with a capital letter. -/
theorem isKeyword_iff_of_startsUpper {name : List Char} (h : startsUpper name = true) :
    isKeyword (String.ofList name) = true ↔ String.ofList name = endOfInput := by
  have hcapital : ∀ word ∈ keywords, startsUpper word.toList = true → word = endOfInput := by
    decide
  constructor
  · intro hkeyword
    refine hcapital _ (List.contains_iff_mem.mp hkeyword) ?_
    rwa [String.toList_ofList]
  · intro heq
    rw [heq]
    rfl

/-! ## What bodies mention -/

theorem not_isKeyword_of_mem_references {ruleText : List Char} {name : String}
    (h : name ∈ references ruleText) : isKeyword name = false := by
  unfold references at h
  split at h
  · cases h
  · exact (mem_names.mp h).2

theorem not_isKeyword_of_mem_symbolReferences {ruleText : List Char} {name : String}
    (h : name ∈ symbolReferences ruleText) : isKeyword name = false := by
  unfold symbolReferences at h
  split at h
  · cases h
  · exact (mem_names.mp h).2

/-! ## Names of rules -/

variable {source cleaned : List Char}

/-- A rule whose name is a reserved word has the one with a capital for a name. -/
theorem isKeyword_name_iff {rule : Rule} (h : rule ∈ extractRules source cleaned) :
    isKeyword rule.name = true ↔ rule.name = endOfInput := by
  rcases mem_extractRules_iff.mp h with ⟨d, hd, rfl⟩ | ⟨d, hd, rfl⟩ | ⟨d, hd, rfl⟩
  · exact isKeyword_iff_of_startsUpper (startsUpper_of_mem_fragmentDefinitions hd)
  · exact isKeyword_iff_of_startsUpper (startsUpper_of_mem_lexerDefinitions hd)
  · -- only names with a small letter are compared with the reserved words
    obtain ⟨hlower, hkeyword⟩ := (firstOfEach_parserDefinitions _).eligible_of_mem d hd
    show isKeyword (String.ofList d.name) = true ↔ String.ofList d.name = endOfInput
    rw [hkeyword]
    refine iff_of_false Bool.false_ne_true fun heq => ?_
    rw [← String.toList_ofList (l := d.name), heq] at hlower
    revert hlower
    decide

/-- A rule is named by a reserved word exactly if a definition is, with the word that starts with a
capital, and the definition is a fragment or its name is declared as a fragment nowhere. -/
theorem exists_reserved_iff :
    (∃ rule ∈ extractRules source cleaned, isKeyword rule.name = true) ↔
      ∃ d ∈ scanDefinitions cleaned, d.name = endOfInput.toList ∧
        (d.isFragment = true ∨ ¬DeclaredAsFragment source d.name) := by
  have hfragments := firstOfEach_fragmentDefinitions (scanDefinitions cleaned)
  have hlexers := firstOfEach_lexerDefinitions source cleaned
  constructor
  · rintro ⟨rule, hrule, hkeyword⟩
    have hname := (isKeyword_name_iff hrule).mp hkeyword
    have hletters {d : Definition} (h : String.ofList d.name = endOfInput) :
        d.name = endOfInput.toList := by
      rw [← h, String.toList_ofList]
    rcases mem_extractRules_iff.mp hrule with ⟨d, hd, rfl⟩ | ⟨d, hd, rfl⟩ | ⟨d, hd, rfl⟩
    · obtain ⟨hmem, hflag⟩ := List.mem_filter.mp ((firstPerKey_sublist _ _).mem hd)
      exact ⟨d, hmem, hletters hname, .inl hflag⟩
    · exact ⟨d, hlexers.inOrder.mem hd, hletters hname,
        .inr (hlexers.eligible_of_mem d hd).2.2⟩
    · have hfree := ((firstOfEach_parserDefinitions _).eligible_of_mem d hd).2
      exact absurd (hfree.symm.trans hkeyword) Bool.false_ne_true
  · rintro ⟨d, hd, hname, hkind⟩
    have hreserved {e : Definition} (he : e.name = d.name) (kind : Kind) :
        isKeyword (e.toRule source kind).name = true := by
      show isKeyword (String.ofList e.name) = true
      rw [he, hname]
      decide
    by_cases hfragment : ∃ e ∈ scanDefinitions cleaned, e.isFragment = true ∧ e.name = d.name
    · -- a fragment definition of the name makes the rule
      obtain ⟨e, he, heq⟩ := List.mem_map.mp (mem_map_name_fragmentDefinitions.mpr hfragment)
      exact ⟨e.toRule source .fragment, mem_extractRules_iff.mpr (.inl ⟨e, he, rfl⟩),
        hreserved heq .fragment⟩
    · have hflag : d.isFragment = false :=
        Bool.eq_false_iff.mpr fun hflag => hfragment ⟨d, hd, hflag, rfl⟩
      have hdeclared : ¬DeclaredAsFragment source d.name :=
        hkind.resolve_left (Bool.eq_false_iff.mp hflag)
      have heligible : startsUpper d.name = true := by
        rw [hname]
        decide
      obtain ⟨e, he, heq⟩ := List.mem_map.mp <| hlexers.complete d hd hflag
        ⟨heligible, fun e he hflag' heq => hfragment ⟨e, he, hflag', heq⟩, hdeclared⟩
      exact ⟨e.toRule source .lexer, mem_extractRules_iff.mpr (.inr (.inl ⟨e, he, rfl⟩)),
        hreserved heq .lexer⟩

/-- **Reserved words among the names of a grammar**: bodies mention none, and a rule is named by one
only if it is the one with a capital letter. There is such a rule exactly if that word is defined,
as a fragment or with no fragment declaration of it anywhere. -/
theorem reserved_of_extractRules (source cleaned : List Char) :
    ((∃ rule ∈ extractRules source cleaned, isKeyword rule.name = true) ↔
      ∃ d ∈ scanDefinitions cleaned, d.name = endOfInput.toList ∧
        (d.isFragment = true ∨ ¬DeclaredAsFragment source d.name)) ∧
    ∀ rule ∈ extractRules source cleaned,
      (isKeyword rule.name = true ↔ rule.name = endOfInput) ∧
      (∀ name ∈ rule.references, isKeyword name = false) ∧
      (∀ name ∈ symbolReferences rule.text.toList, isKeyword name = false) := by
  refine ⟨exists_reserved_iff, fun rule hrule => ⟨isKeyword_name_iff hrule, fun name hname => ?_,
    fun name hname => not_isKeyword_of_mem_symbolReferences hname⟩⟩
  obtain ⟨d, hd, -⟩ := exists_definition_of_mem_extractRules hrule
  rw [hd] at hname
  exact not_isKeyword_of_mem_references hname

/-- A fragment of the reserved name counts, and a body that mentions the word has no mention. -/
theorem reserved_of_extractRules_fragment :
    ∃ rule ∈ extractRules "a : EOF ; fragment EOF : 'x' ;".toList
        "a : EOF ; fragment EOF : 'x' ;".toList,
      isKeyword rule.name = true ∧ rule.name = endOfInput ∧ rule.references = [] ∧
        (∀ name ∈ symbolReferences rule.text.toList, isKeyword name = false) := by
  let source := "a : EOF ; fragment EOF : 'x' ;".toList
  have hdefined : ∃ d ∈ scanDefinitions source, d.name = endOfInput.toList ∧
      d.isFragment = true := by
    decide +kernel
  obtain ⟨d, hd, hname, hflag⟩ := hdefined
  have hreserved := reserved_of_extractRules source source
  obtain ⟨rule, hrule, hkeyword⟩ := hreserved.1.mpr ⟨d, hd, hname, .inl hflag⟩
  obtain ⟨hword, -, hsymbols⟩ := hreserved.2 rule hrule
  have hnone : ∀ rule ∈ extractRules source source, rule.references = [] := by
    decide +kernel
  exact ⟨rule, hrule, hkeyword, hword.mp hkeyword, hnone rule hrule, hsymbols⟩

/-- A rule that is named by a reserved word, used by the other rule and yet unused. -/
theorem reserved_rule_of_capital :
    ∃ rule ∈ rulesOf "a : EOF ;\nEOF : 'x' ;".toList, isKeyword rule.name = true ∧
      ∃ u ∈ (Report.of "a : EOF ;\nEOF : 'x' ;".toList {} ⟨.nan, .nan⟩).unused,
        u.name = rule.name := by
  decide +kernel

end GrammarAudit.Grammar
