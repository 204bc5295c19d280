import GrammarAudit.Proofs.Grammar.Printing

/-!
# Where definitions stand

Every definition that is found takes up a span of the text: a heading that begins in code, the
body and a semicolon. The spans come in the order of the definitions and do not overlap.

- `Occurrence`: a definition with the span that it takes up.
- `Occurrence.StandsIn`: what the text of that span has to be.
- `occurrences`: the spans that a scan goes through.
- `Located`, `located_occurrencesFrom`: they are such spans, from any point of a text on.
- `scanDefinitions_sound`: spans, well-formed definitions, and reading back what was printed.
-/

namespace GrammarAudit.Grammar

/-- A definition and the offsets at which its text starts and stops. -/
structure Occurrence where
  definition : Definition
  start : Nat
  stop : Nat

/-- The span begins in code and holds exactly a heading of the definition, its body and a
semicolon. -/
structure Occurrence.StandsIn (o : Occurrence) (t : List Char) : Prop where
  inside : o.stop ≤ t.length
  inCode : Context.code.after (t.take o.start) = .code
  text : ∃ head, Heading o.definition.isFragment o.definition.name head ∧
    t.extract o.start o.stop = head ++ o.definition.body ++ [';']

/-- The definitions found from an offset of a text on, each with the span that the scan took it
from. -/
def occurrencesFrom (context : Context) (afterIdent : Bool) (offset : Nat) (s : List Char) :
    List Occurrence :=
  match s with
  | [] => []
  | c :: rest =>
    if context = .code ∧ isIdentStart c ∧ !afterIdent then
      match _h : readDefinition? (c :: rest) with
      | some (definition, tail) =>
        let stop := offset + ((c :: rest).length - tail.length)
        ⟨definition, offset, stop⟩ :: occurrencesFrom .code false stop tail
      | none => occurrencesFrom (context.step c) (isIdentChar c) (offset + 1) rest
    else occurrencesFrom (context.step c) (isIdentChar c) (offset + 1) rest
termination_by s.length
decreasing_by
  · exact length_of_readDefinition? _h
  · simp
  · simp

/-- The definitions of a text with their spans. -/
def occurrences (t : List Char) : List Occurrence :=
  occurrencesFrom .code false 0 t

/-! ## Parts of a text -/

/-- A part between two others is what the text holds between its offsets. -/
theorem extract_between (before part after : List Char) :
    (before ++ (part ++ after)).extract before.length (before ++ part).length = part := by
  simp [List.extract]

theorem Context.after_concat (context : Context) (s : List Char) (c : Char) :
    context.after (s ++ [c]) = (context.after s).step c := by
  rw [after_append]
  rfl

/-- What a definition takes up leaves code in code. -/
theorem after_definition {isFragment : Bool} {name head body : List Char}
    (hheading : Heading isFragment name head) (hclosed : Closed body) :
    Context.code.after (head ++ body ++ [';']) = .code := by
  rw [Context.after_concat, (hheading.closed.append hclosed).2]
  rfl

/-! ## The spans of a scan -/

/-- The definitions stand, in order, in spans of the text after the part that has been passed. -/
structure Located (before s : List Char) (definitions : List Definition)
    (found : List Occurrence) : Prop where
  definitions_eq : found.map Occurrence.definition = definitions
  stand : ∀ o ∈ found, before.length ≤ o.start ∧ o.StandsIn (before ++ s)
  sorted : found.Pairwise fun o p => o.stop ≤ p.start

variable {before part s : List Char} {definitions : List Definition} {found : List Occurrence}

/-- What stands after a longer part stands after a shorter one. -/
theorem Located.skip (h : Located (before ++ part) s definitions found) :
    Located before (part ++ s) definitions found := by
  refine ⟨h.definitions_eq, fun o ho => ?_, h.sorted⟩
  obtain ⟨hle, hstands⟩ := h.stand o ho
  rw [List.length_append] at hle
  rw [List.append_assoc] at hstands
  exact ⟨by omega, hstands⟩

/-- A definition in front of others that stand after it. -/
theorem Located.cons {o : Occurrence} (ho : o.StandsIn (before ++ (part ++ s)))
    (hstart : o.start = before.length) (hstop : o.stop = (before ++ part).length)
    (h : Located (before ++ part) s definitions found) :
    Located before (part ++ s) (o.definition :: definitions) (o :: found) := by
  refine ⟨?_, fun p hp => ?_, List.pairwise_cons.mpr ⟨fun p hp => ?_, h.sorted⟩⟩
  · rw [List.map_cons, h.definitions_eq]
  · rcases List.mem_cons.mp hp with rfl | hp
    · exact ⟨Nat.le_of_eq hstart.symm, ho⟩
    · exact h.skip.stand p hp
  · rw [hstop]
    exact (h.stand p hp).1

/-- A definition that is read in code stands where the passed part ends. -/
theorem standsIn_of_heading {d : Definition} {head tail : List Char}
    (hcode : Context.code.after before = .code) (hheading : Heading d.isFragment d.name head)
    (hpart : part = head ++ d.body ++ [';']) :
    (Occurrence.mk d before.length (before ++ part).length).StandsIn
      (before ++ (part ++ tail)) := by
  refine ⟨?_, ?_, head, hheading, ?_⟩
  · have hprefix : before ++ part <+: before ++ (part ++ tail) :=
      ⟨tail, List.append_assoc ..⟩
    exact hprefix.length_le
  · rw [List.take_left]
    exact hcode
  · rw [extract_between, hpart]

/-- The definitions found from a point of a text on stand after that point, in order. -/
theorem located_occurrencesFrom {context : Context} {afterIdent : Bool}
    (hbefore : Context.code.after before = context) :
    Located before s (scanFrom context afterIdent s)
      (occurrencesFrom context afterIdent before.length s) := by
  -- along the scan: what has been passed grows by a character or by a whole definition
  fun_induction scanFrom context afterIdent s generalizing before with
  | case1 =>
    rw [occurrencesFrom]
    exact ⟨rfl, fun o ho => absurd ho List.not_mem_nil, List.Pairwise.nil⟩
  | case2 context afterIdent c rest hc d tail hread ih =>
    obtain ⟨head, hheading, -, hclosed, heq⟩ := readDefinition?_eq_some_iff.mp hread
    have hcode : Context.code.after before = .code := hbefore.trans hc.1
    have hrest : c :: rest = head ++ d.body ++ [';'] ++ tail := by rw [heq]; simp
    have hpassed : Context.code.after (before ++ (head ++ d.body ++ [';'])) = .code := by
      rw [Context.after_append, hcode]
      exact after_definition hheading hclosed
    have hstop : before.length + ((c :: rest).length - tail.length) =
        (before ++ (head ++ d.body ++ [';'])).length := by
      simp only [hrest, List.length_append]
      omega
    rw [occurrencesFrom, if_pos hc]
    split
    · next hsome =>
      rw [hread] at hsome
      cases hsome
      dsimp only
      rw [hstop, hrest]
      exact (ih hpassed).cons (standsIn_of_heading hcode hheading rfl) rfl rfl
    · next hnone =>
      rw [hread] at hnone
      cases hnone
  | case3 context afterIdent c rest hc hread ih =>
    have hskip := (ih (by rw [Context.after_concat, hbefore])).skip
    rw [List.length_append] at hskip
    rw [occurrencesFrom, if_pos hc]
    split
    · next hsome =>
      rw [hread] at hsome
      cases hsome
    · exact hskip
  | case4 context afterIdent c rest hc ih =>
    have hskip := (ih (by rw [Context.after_concat, hbefore])).skip
    rw [List.length_append] at hskip
    rw [occurrencesFrom, if_neg hc]
    exact hskip

theorem exists_located {context : Context} {afterIdent : Bool}
    (hbefore : Context.code.after before = context) :
    ∃ found, Located before s (scanFrom context afterIdent s) found :=
  ⟨_, located_occurrencesFrom hbefore⟩

/-- **Soundness of rule discovery**: the definitions of a text stand in it, in order, in spans that
do not overlap and that each hold exactly a heading, the body and a semicolon. All of them are well
formed, so that they are found again in what they print. -/
theorem scanDefinitions_sound (t : List Char) :
    (∃ found : List Occurrence,
      found.map Occurrence.definition = scanDefinitions t ∧
      (∀ o ∈ found, o.StandsIn t) ∧
      found.Pairwise fun o p => o.stop ≤ p.start) ∧
    (∀ d ∈ scanDefinitions t, d.WellFormed) ∧
    scanDefinitions ((scanDefinitions t).flatMap Definition.print) = scanDefinitions t := by
  have hformed : ∀ d ∈ scanDefinitions t, d.WellFormed := fun d hd =>
    wellFormed_of_mem_scanFrom hd
  obtain ⟨found, h⟩ : ∃ found, Located [] t (scanDefinitions t) found := exists_located rfl
  exact ⟨⟨found, h.definitions_eq, fun o ho => (h.stand o ho).2, h.sorted⟩, hformed,
    scanDefinitions_flatMap_print hformed⟩

end GrammarAudit.Grammar
