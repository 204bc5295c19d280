import GrammarAudit.Proofs.Grammar.Location
import GrammarAudit.Proofs.Grammar.Printing
import Mathlib.Data.List.Forall2

/-!
# A comment line in front of a grammar

Two readings of one grammar, without and with a comment line in front of it. The comment is gone
when definitions are looked for, so the rules are the same; it is still there when they are
located, so a comment that looks like a declaration draws the place of a rule to itself.

- `strip_commentLine`: stripping leaves a line feed of the comment line.
- `HasWord`, `declaredAsFragment_line_append_iff`: what a line declares as a fragment.
- `MovedDown`: how a rule below a line relates to the same rule without it.
- `rulesOf_commentLine`: the rules below a comment line, one by one.
- `rule_located_in_comment`: a rule that is located in the comment.
-/

namespace GrammarAudit.Grammar

open Text

/-- A line comment, without the line feed that ends it. -/
def commentLine (c : List Char) : List Char :=
  '/' :: '/' :: c

/-! ## Stripping -/

theorem dropLineComments_true_append {c : List Char} (hc : '\n' ∉ c) (s : List Char) :
    dropLineComments true (c ++ '\n' :: s) = '\n' :: dropLineComments false s := by
  induction c with
  | nil => rfl
  | cons d c ih =>
    have hd : d ≠ '\n' := fun h => hc (h ▸ List.mem_cons_self)
    rw [List.cons_append, dropLineComments]
    · exact ih fun h => hc (List.mem_cons_of_mem _ h)
    · exact hd

/-- Of a comment line its line feed is left. -/
theorem stripComments_commentLine {c : List Char} (hc : '\n' ∉ c) (s : List Char) :
    stripComments (commentLine c ++ '\n' :: s) = '\n' :: stripComments s := by
  have hline : withoutLineComments (commentLine c ++ '\n' :: s) =
      '\n' :: withoutLineComments s := dropLineComments_true_append hc s
  rw [stripComments, hline]
  rfl

/-- A pattern that matches at no line feed leaves the one at the start alone. -/
theorem eraseMatches_lineFeed_cons {pattern : Pattern}
    (h : ∀ s, pattern true ('\n' :: s) = none) (s : List Char) :
    eraseMatches pattern ('\n' :: s) = '\n' :: eraseMatches pattern s := by
  rw [eraseMatches, replaceMatches, h]
  rfl

theorem foldl_eraseMatches_lineFeed_cons {patterns : List Pattern}
    (h : ∀ pattern ∈ patterns, ∀ s, pattern true ('\n' :: s) = none) (s : List Char) :
    patterns.foldl (fun text pattern => eraseMatches pattern text) ('\n' :: s) =
      '\n' :: patterns.foldl (fun text pattern => eraseMatches pattern text) s := by
  induction patterns generalizing s with
  | nil => rfl
  | cons pattern patterns ih =>
    rw [List.foldl_cons, List.foldl_cons, eraseMatches_lineFeed_cons (h pattern List.mem_cons_self)]
    exact ih (fun p hp => h p (List.mem_cons_of_mem _ hp)) _

/-- No header begins with a line feed. -/
theorem stripHeaders_lineFeed_cons (s : List Char) :
    stripHeaders ('\n' :: s) = '\n' :: stripHeaders s := by
  refine foldl_eraseMatches_lineFeed_cons (fun pattern hp s => ?_) s
  simp only [List.mem_cons, List.not_mem_nil, or_false] at hp
  rcases hp with rfl | rfl | rfl | rfl | rfl | rfl | rfl <;> rfl

theorem strip_commentLine {c : List Char} (hc : '\n' ∉ c) (s : List Char) :
    strip (commentLine c ++ '\n' :: s) = '\n' :: strip s := by
  rw [strip, stripComments_commentLine hc, stripHeaders_lineFeed_cons, strip]

/-- The same definitions are found below a comment line. -/
theorem scanDefinitions_strip_commentLine {c : List Char} (hc : '\n' ∉ c) (s : List Char) :
    scanDefinitions (strip (commentLine c ++ '\n' :: s)) = scanDefinitions (strip s) := by
  rw [strip_commentLine hc]
  exact scanFrom_blank_cons (by decide) false (strip s)

/-! ## Declarations as a fragment -/

/-- The word stands in the text, and no longer word around it. -/
def HasWord (word s : List Char) : Prop :=
  ∃ before after, s = before ++ (word ++ after) ∧ lastIs isWordChar false before = false ∧
    after.head?.any isWordChar = false

/-- A word is looked for at every offset of the text. -/
theorem hasWord_iff {word s : List Char} :
    HasWord word s ↔ ∃ i ∈ List.range (s.length + 1), word <+: s.drop i ∧
      lastIs isWordChar false (s.take i) = false ∧
        ((s.drop i).drop word.length).head?.any isWordChar = false := by
  constructor
  · rintro ⟨before, after, rfl, hbefore, hafter⟩
    refine ⟨before.length, List.mem_range.mpr ?_, ?_, ?_, ?_⟩
    · rw [List.length_append]
      omega
    · rw [List.drop_left]
      exact List.prefix_append _ _
    · rw [List.take_left]
      exact hbefore
    · rw [List.drop_left, List.drop_left]
      exact hafter
  · rintro ⟨i, -, ⟨after, hafter⟩, hbefore, hblank⟩
    rw [← hafter, List.drop_left] at hblank
    exact ⟨s.take i, after, by rw [hafter, List.take_append_drop], hbefore, hblank⟩

instance (word s : List Char) : Decidable (HasWord word s) :=
  decidable_of_iff _ hasWord_iff.symm

/-- A word in a text of several lines stands in its first line if it begins there. -/
theorem exists_rest_of_line {word rest line s : List Char} (h : '\n' ∉ word)
    (heq : word ++ rest = line ++ '\n' :: s) :
    ∃ after, line = word ++ after ∧ rest = after ++ '\n' :: s := by
  rcases List.append_eq_append_iff.mp heq with ⟨after, hline, hrest⟩ | ⟨extra, hword, hrest⟩
  · exact ⟨after, hline, hrest⟩
  · cases extra with
    | nil => exact ⟨[], by simpa using hword.symm, hrest.symm⟩
    | cons d extra =>
      obtain ⟨rfl, -⟩ := List.cons.inj hrest
      exact absurd (hword ▸ List.mem_append_right _ List.mem_cons_self) h

/-- A line without the word for fragments declares no fragment, not even together with the text
below it. -/
theorem declaredAsFragment_line_append_iff {line s name : List Char}
    (h : ¬HasWord fragmentWord line) :
    DeclaredAsFragment (line ++ '\n' :: s) name ↔ DeclaredAsFragment s name := by
  have hfeed : isWordChar '\n' = false := not_isWordChar_of_isBlank (by decide)
  constructor
  · rintro ⟨before, space, gap, after, heq, hword, hne, hs, hgap⟩
    rcases List.append_eq_append_iff.mp heq with ⟨below, rfl, hbelow⟩ | ⟨part, rfl, hpart⟩
    · -- the word begins below the line
      cases below with
      | nil => exact absurd (List.cons.inj hbelow).1 (by decide)
      | cons d below =>
        obtain ⟨rfl, rfl⟩ := List.cons.inj hbelow
        rw [lastIs_append, lastIs_cons, hfeed] at hword
        exact ⟨below, space, gap, after, rfl, hword, hne, hs, hgap⟩
    · -- the word begins in the line, and so it ends there and a blank follows it
      obtain ⟨behind, rfl, hrest⟩ := exists_rest_of_line (by decide) hpart
      refine absurd ⟨before, behind, rfl, hword, ?_⟩ h
      obtain ⟨d, space, rfl⟩ := List.exists_cons_of_ne_nil hne
      cases behind with
      | nil => rfl
      | cons e behind =>
        obtain ⟨rfl, -⟩ := List.cons.inj hrest
        exact not_isWordChar_of_isBlank (hs d List.mem_cons_self)
  · rintro ⟨before, space, gap, after, rfl, hword, hne, hs, hgap⟩
    refine ⟨line ++ '\n' :: before, space, gap, after, by simp, ?_, hne, hs, hgap⟩
    rw [lastIs_append, lastIs_cons, hfeed]
    exact hword

/-- The word for fragments stands in a comment line only if it stands in its text. -/
theorem hasWord_of_commentLine {c : List Char} (h : HasWord fragmentWord (commentLine c)) :
    HasWord fragmentWord c := by
  have hslash : isWordChar '/' = false := by decide +kernel
  obtain ⟨before, after, heq, hword, hafter⟩ := h
  rcases before with - | ⟨d, - | ⟨e, before⟩⟩
  · exact absurd (List.cons.inj heq).1 (by decide)
  · exact absurd (List.cons.inj (List.cons.inj heq).2).1 (by decide)
  · obtain ⟨rfl, hrest⟩ := List.cons.inj heq
    obtain ⟨rfl, rfl⟩ := List.cons.inj hrest
    rw [lastIs_cons, lastIs_cons, hslash] at hword
    exact ⟨before, after, rfl, hword, hafter⟩

/-- The same definitions make lexer rules below a comment line without the word for fragments. -/
theorem lexerDefinitions_commentLine {c : List Char} (h : ¬HasWord fragmentWord c)
    (s cleaned : List Char) :
    lexerDefinitions (commentLine c ++ '\n' :: s) (scanDefinitions cleaned) =
      lexerDefinitions s (scanDefinitions cleaned) := by
  unfold lexerDefinitions
  dsimp only
  congr 1
  refine List.filter_congr fun d hd => ?_
  have hname : IsName d.name := (wellFormed_of_mem_scanFrom hd).isName
  have hdeclared : declaresFragment (commentLine c ++ '\n' :: s) d.name =
      declaresFragment s d.name := by
    rw [Bool.eq_iff_iff, declaresFragment_iff hname, declaresFragment_iff hname]
    exact declaredAsFragment_line_append_iff fun hline => h (hasWord_of_commentLine hline)
  rw [hdeclared]

/-! ## Rules below a line -/

/-- A rule below a line and the same rule without it: they differ in their places only. A rule that
the line does not declare is one line further down, or at the start of the text if it is located
nowhere; one that the line declares is reported on the line. -/
structure MovedDown (line s : List Char) (r below : Rule) : Prop where
  sameButPlace : below = { r with
    line := below.line, column := below.column
    endLine := below.endLine, endColumn := below.endColumn }
  located : ¬DeclaredInLine line s r.name.toList → findDeclaration? s r.name.toList ≠ none →
    below = { r with line := r.line + 1, endLine := r.endLine + 1 }
  unlocated : ¬DeclaredInLine line s r.name.toList → findDeclaration? s r.name.toList = none →
    below = r
  inLine : DeclaredInLine line s r.name.toList → below.line = 1

theorem movedDown_toRule {line : List Char} (hline : '\n' ∉ line) (s : List Char) (kind : Kind)
    (d : Definition) :
    MovedDown line s (d.toRule s kind) (d.toRule (line ++ '\n' :: s) kind) := by
  have hname : (d.toRule s kind).name.toList = d.name := String.toList_ofList
  refine ⟨rfl, fun h hfind => ?_, fun h hfind => ?_, fun h => ?_⟩
  · rw [hname] at h hfind
    simp only [Definition.toRule, declarationSpan_line_append hline h hfind]
    rfl
  · rw [hname] at h hfind
    simp only [Definition.toRule, declarationSpan_line_append_of_none h hfind]
  · rw [hname] at h
    exact declarationSpan_of_declaredInLine hline h

theorem forall₂_movedDown_map {line : List Char} (hline : '\n' ∉ line) (s : List Char)
    (kind : Kind) (ds : List Definition) :
    List.Forall₂ (MovedDown line s) (ds.map (·.toRule s kind))
      (ds.map (·.toRule (line ++ '\n' :: s) kind)) := by
  rw [List.forall₂_map_left_iff, List.forall₂_map_right_iff, List.forall₂_same]
  exact fun d _ => movedDown_toRule hline s kind d

/-- **A comment line moves rules down**: below a comment line that does not hold the word for
fragments, the rules are the same, in the same order, but for their places. The rules that the
comment does not declare are one line further down, in the same columns, as far as they are located
at all; those that it declares are reported on the comment line. -/
theorem rulesOf_commentLine {c : List Char} (hline : '\n' ∉ c) (hword : ¬HasWord fragmentWord c)
    (s : List Char) :
    List.Forall₂ (MovedDown (commentLine c) s) (rulesOf s)
      (rulesOf (commentLine c ++ '\n' :: s)) := by
  have hcomment : '\n' ∉ commentLine c := by simp [commentLine, hline]
  unfold rulesOf extractRules
  dsimp only
  rw [scanDefinitions_strip_commentLine hline, lexerDefinitions_commentLine hword]
  have happend := List.rel_append (R := MovedDown (commentLine c) s)
  exact happend (happend (forall₂_movedDown_map hcomment s .fragment _)
    (forall₂_movedDown_map hcomment s .lexer _)) (forall₂_movedDown_map hcomment s .parser _)

/-- A comment that declares `a` and not `b`, and in which the word for fragments stands only as a
part of a longer word. -/
theorem rulesOf_commentLine_fragments :
    '\n' ∉ " fragments of a : b".toList ∧ ¬HasWord fragmentWord " fragments of a : b".toList ∧
      List.Forall₂
        (MovedDown (commentLine " fragments of a : b".toList) "a : b ;\nb : 'y' ;".toList)
        (rulesOf "a : b ;\nb : 'y' ;".toList)
        (rulesOf
          (commentLine " fragments of a : b".toList ++ '\n' :: "a : b ;\nb : 'y' ;".toList)) :=
  have hline : '\n' ∉ " fragments of a : b".toList := by decide +kernel
  have hword : ¬HasWord fragmentWord " fragments of a : b".toList := by decide +kernel
  ⟨hline, hword, rulesOf_commentLine hline hword _⟩

/-- A rule that is located in its text at the start of the first line, and below a comment that
looks like its declaration not at the start of the second line but in the comment. -/
theorem rule_located_in_comment :
    '\n' ∉ " a : b".toList ∧ ¬HasWord fragmentWord " a : b".toList ∧
      findDeclaration? "a : 'x' ;".toList "a".toList = some 0 ∧
      (rulesOf "a : 'x' ;".toList).map (fun r => (r.name, r.line, r.column)) = [("a", 1, 0)] ∧
      (rulesOf (commentLine " a : b".toList ++ '\n' :: "a : 'x' ;".toList)).map
        (fun r => (r.name, r.line, r.column)) = [("a", 1, 3)] := by
  decide +kernel

end GrammarAudit.Grammar
