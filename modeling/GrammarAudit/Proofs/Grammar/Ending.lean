import GrammarAudit.Proofs.Grammar.Declaration
import GrammarAudit.Proofs.Grammar.Occurrence
import GrammarAudit.Proofs.Grammar.Registration
import GrammarAudit.Proofs.Text.Place

/-!
# Where a rule is reported to end

The scanner ends a body at its first semicolon in code. The place that is reported is looked for
again in the text as written, where the first semicolon after the name counts, whatever it stands
in. The two agree on the bodies that hold no semicolon at all; in any other body the reported end
is inside an enclosure.

- `Occurrence.nameStart`, `Occurrence.bodyStart`: the parts of a span.
- `ruleEnd_bodyStart`: the span ends after the terminator of its body.
- `winner?`, `exists_winner`: the span of the definition that a rule is made of.
- `declarationSpan_stop`: the reported end is after the first semicolon of the span.
- `stop_eq_iff_of_located`: where the reported end of a rule is its terminator.
- `stop_in_literal`: a rule that is reported to end inside a literal.
-/

namespace GrammarAudit

open Text

/-- The place at which a rule is reported to start. -/
def Rule.start (rule : Rule) : Place :=
  ⟨rule.line, rule.column⟩

/-- The place past the semicolon at which a rule is reported to end. -/
def Rule.stop (rule : Rule) : Place :=
  ⟨rule.endLine, rule.endColumn⟩

namespace Grammar

/-! ## The parts of a span -/

/-- The offset of the name: the start of the span, or past the word for fragments and the blanks
after it. -/
def Occurrence.nameStart (o : Occurrence) (t : List Char) : Nat :=
  if o.definition.isFragment then
    let afterWord := o.start + fragmentWord.length
    afterWord + ((t.drop afterWord).takeWhile isBlank).length
  else o.start

/-- The offset of the body, which goes up to the semicolon at the end of the span. -/
def Occurrence.bodyStart (o : Occurrence) : Nat :=
  o.stop - (o.definition.body.length + 1)

variable {o : Occurrence} {t : List Char}

/-- From the start of a span on, the text is a heading, the body, a semicolon and the rest. -/
theorem Occurrence.StandsIn.exists_heading (h : o.StandsIn t) :
    ∃ head, Heading o.definition.isFragment o.definition.name head ∧
      t.drop o.start = head ++ (o.definition.body ++ ';' :: t.drop o.stop) := by
  obtain ⟨head, hheading, htext⟩ := h.text
  have hextract : (t.drop o.start).take (o.stop - o.start) = head ++ o.definition.body ++ [';'] :=
    htext
  have hlt : o.start < o.stop := by
    have hlength := congrArg List.length hextract
    simp only [List.length_take, List.length_append, List.length_singleton] at hlength
    omega
  have hdrop : (t.drop o.start).drop (o.stop - o.start) = t.drop o.stop := by
    rw [List.drop_drop, Nat.add_sub_cancel' (Nat.le_of_lt hlt)]
  refine ⟨head, hheading, ?_⟩
  rw [← List.take_append_drop (o.stop - o.start) (t.drop o.start), hextract, hdrop]
  simp

/-- From the name of a span on, the text is the name, blanks, a colon, the body and the rest. -/
theorem Occurrence.StandsIn.drop_nameStart (h : o.StandsIn t) :
    ∃ gap, AllBlank gap ∧ t.drop (o.nameStart t) =
      o.definition.name ++ (gap ++ ':' :: (o.definition.body ++ ';' :: t.drop o.stop)) := by
  obtain ⟨head, hheading, hdrop⟩ := h.exists_heading
  obtain ⟨⟨name, body, isFragment⟩, start, stop⟩ := o
  dsimp only at hheading hdrop ⊢
  cases hheading with
  | @rule name gap hn hg => exact ⟨gap, hg, by simpa [nameStart] using hdrop⟩
  | @fragment space name gap hne hs hn hg =>
    have hword : t.drop (start + fragmentWord.length) =
        space ++ (name ++ (gap ++ ':' :: (body ++ ';' :: t.drop stop))) := by
      rw [← List.drop_drop, hdrop]
      simp
    have hspace : (t.drop (start + fragmentWord.length)).takeWhile isBlank = space := by
      obtain ⟨c, rest, rfl, hc⟩ := hn.exists_cons
      rw [hword, List.takeWhile_append_of_pos hs, List.cons_append, List.takeWhile_cons_of_neg
        (by simp [not_isBlank_of_isIdentChar (isIdentChar_of_isAlpha hc)]), List.append_nil]
    refine ⟨gap, hg, ?_⟩
    show t.drop (start + fragmentWord.length +
      ((t.drop (start + fragmentWord.length)).takeWhile isBlank).length) = _
    rw [hspace, ← List.drop_drop, hword, List.drop_left]

/-- The heading of a span and its body fill it up to the semicolon. -/
theorem Occurrence.StandsIn.nameStart_add (h : o.StandsIn t) {gap : List Char}
    (hdrop : t.drop (o.nameStart t) =
      o.definition.name ++ (gap ++ ':' :: (o.definition.body ++ ';' :: t.drop o.stop))) :
    o.nameStart t + o.definition.name.length + gap.length + 1 = o.bodyStart ∧
      o.bodyStart + o.definition.body.length + 1 = o.stop := by
  have hlength := congrArg List.length hdrop
  simp only [List.length_drop, List.length_append, List.length_cons] at hlength
  have hinside := h.inside
  unfold bodyStart
  omega

/-- A span ends after the first semicolon in code from its body on. -/
theorem ruleEnd_bodyStart (h : o.StandsIn t) (hclosed : Closed o.definition.body) :
    ruleEnd t o.bodyStart + 1 = o.stop := by
  obtain ⟨gap, -, hdrop⟩ := h.drop_nameStart
  obtain ⟨hbody, hstop⟩ := h.nameStart_add hdrop
  have hsplit : splitTerminator .code (t.drop o.bodyStart) =
      some (o.definition.body, t.drop o.stop) := by
    have hname : t.drop o.bodyStart =
        (t.drop (o.nameStart t)).drop (o.definition.name.length + (gap.length + 1)) := by
      rw [List.drop_drop]
      congr 1
      omega
    rw [hname, hdrop, List.drop_length_add_append, List.drop_length_add_append,
      List.drop_succ_cons, List.drop_zero]
    exact splitTerminator_code_iff.mpr ⟨hclosed, rfl⟩
  rw [ruleEnd, hsplit]
  exact hstop

/-! ## The span of a rule -/

/-- The first span of a definition that has the name of the rule and is a fragment or not as the
rule is. -/
def winner? (source : List Char) (rule : Rule) : Option Occurrence :=
  (occurrences source).find? fun o =>
    o.definition.isFragment = decide (rule.kind = .fragment) ∧
      String.ofList o.definition.name = rule.name

/-- Every rule is made of the definition in its span, which stands in the text. -/
theorem exists_winner {source : List Char} {rule : Rule} (h : rule ∈ extractRules source source) :
    ∃ o, winner? source rule = some o ∧ o.StandsIn source ∧ Closed o.definition.body ∧
      rule = o.definition.toRule source rule.kind := by
  obtain ⟨d, hrule, hfind⟩ := exists_definition_of_mem_extractRules h
  have hlocated : Located [] source (scanDefinitions source) (occurrences source) :=
    located_occurrencesFrom rfl
  rw [← hlocated.definitions_eq, List.find?_map] at hfind
  obtain ⟨o, hfind, rfl⟩ := Option.map_eq_some_iff.mp hfind
  have hmem : o ∈ occurrences source := List.mem_of_find?_eq_some hfind
  have hname : rule.name = String.ofList o.definition.name := by rw [hrule]; rfl
  have hscan : o.definition ∈ scanDefinitions source := by
    rw [← hlocated.definitions_eq]
    exact List.mem_map_of_mem hmem
  refine ⟨o, ?_, (hlocated.stand o hmem).2, (wellFormed_of_mem_scanFrom hscan).closed, hrule⟩
  rw [winner?, hname]
  simp only [String.ofList_inj]
  exact hfind

/-! ## The first semicolon after a name -/

/-- What stands after a part of the text from an offset on. -/
theorem getElem?_of_drop {s part rest : List Char} {offset : Nat} {c : Char}
    (hdrop : s.drop offset = part ++ c :: rest) : s[offset + part.length]? = some c := by
  rw [← List.getElem?_drop, hdrop, List.getElem?_append_right (Nat.le_refl _), Nat.sub_self]
  rfl

/-- The search for a semicolon passes over a part that holds none. -/
theorem semicolonFrom?_of_drop {s part rest : List Char} {offset : Nat} (hpart : ';' ∉ part)
    (hdrop : s.drop offset = part ++ ';' :: rest) :
    semicolonFrom? s offset = some (offset + part.length) := by
  have hnone : part.findIdx? (fun c => decide (c = ';')) = none :=
    List.findIdx?_eq_none_iff.mpr fun c hc => decide_eq_false fun heq => hpart (heq ▸ hc)
  rw [semicolonFrom?, hdrop, List.findIdx?_append, hnone, List.findIdx?_cons]
  simp [Nat.add_comm]

theorem semicolon_not_mem_gap {gap : List Char} (h : AllBlank gap) : ';' ∉ gap :=
  fun hmem => absurd (h ';' hmem) (by decide)

/-- What is located at its name ends after the first semicolon from the body on, whatever that
stands in. -/
theorem declarationSpan_stop (h : o.StandsIn t) {part rest : List Char}
    (hpart : ';' ∉ part)
    (hfirst : o.definition.body ++ ';' :: t.drop o.stop = part ++ ';' :: rest)
    (hstart : (declarationSpan t o.definition.name).1 = place t (o.nameStart t)) :
    (declarationSpan t o.definition.name).2 = place t (o.bodyStart + part.length + 1 : Nat) := by
  obtain ⟨gap, hgap, hdrop⟩ := h.drop_nameStart
  obtain ⟨hbody, hstop⟩ := h.nameStart_add hdrop
  have hinside := h.inside
  -- the declaration that is found is the one of the span
  have hfind : findDeclaration? t o.definition.name = some (o.nameStart t) := by
    cases hfound : findDeclaration? t o.definition.name with
    | none =>
      have horigin : place t (0 : Nat) = place t (o.nameStart t) := by
        rw [← hstart, declarationSpan, hfound]
        simp [place, lineOf, columnOf, sinceLineFeed]
      have hzero := (place_inj (Nat.zero_le _) (by omega)).mp horigin
      rw [← hzero] at hdrop
      exact absurd ⟨rfl, gap, _, hgap, hdrop⟩ (findDeclaration?_eq_none_iff.mp hfound 0)
    | some offset =>
      obtain ⟨-, gap', after, -, hdeclared⟩ := (findDeclaration?_eq_some_iff.mp hfound).1
      have hlength := congrArg List.length hdeclared
      simp only [List.length_drop, List.length_append, List.length_cons] at hlength
      rw [declarationSpan, hfound] at hstart
      have hplace : place t offset = place t (o.nameStart t) := by
        rw [← hstart]
        dsimp only
        split <;> rfl
      rw [(place_inj (by omega) (by omega)).mp hplace]
  have hnext : t.drop (o.nameStart t + o.definition.name.length) =
      (gap ++ ':' :: part) ++ ';' :: rest := by
    rw [← List.drop_drop, hdrop, List.drop_left, hfirst]
    simp
  have hnone : ';' ∉ gap ++ ':' :: part := by simp [semicolon_not_mem_gap hgap, hpart]
  have hoffset : o.nameStart t + o.definition.name.length + (gap ++ ':' :: part).length =
      o.bodyStart + part.length := by
    rw [List.length_append, List.length_cons]
    omega
  have hsemicolon := semicolonFrom?_of_drop hnone hnext
  have hchar := getElem?_of_drop hnext
  rw [hoffset] at hsemicolon hchar
  rw [declarationSpan, hfind]
  dsimp only
  rw [hsemicolon, place_succ hchar (by decide)]

/-! ## The end of a rule -/

/-- A semicolon of a closed text stands in an enclosure. -/
theorem Closed.enclosed {before after : List Char} (h : Closed (before ++ ';' :: after)) :
    Context.code.after before ≠ .code := by
  intro hcode
  have hbefore : splitTerminator .code before = none := by
    rw [Option.eq_none_iff_forall_ne_some]
    rintro ⟨body, tail⟩ hsplit
    have hlong := splitTerminator_append_of_some hsplit (';' :: after)
    rw [h.1] at hlong
    cases hlong
  have hsplit : splitTerminator .code (before ++ ';' :: after) = some (before, after) :=
    splitTerminator_eq_some_iff.mpr ⟨hbefore, hcode, rfl⟩
  rw [h.1] at hsplit
  cases hsplit

/-- **The reported end of a rule**: a rule that is reported at the name of its definition is
reported to end at the terminator of that definition exactly if no semicolon stands in the body.
Otherwise its reported end is past the first semicolon of the body, which stands in a literal, a
character set or an action. -/
theorem stop_eq_iff_of_located {source : List Char} {rule : Rule}
    (h : rule ∈ extractRules source source) :
    ∃ o, winner? source rule = some o ∧ o.StandsIn source ∧
      rule = o.definition.toRule source rule.kind ∧
      (rule.start = place source (o.nameStart source) →
        (rule.stop = place source (ruleEnd source o.bodyStart + 1 : Nat) ↔
          ';' ∉ o.definition.body) ∧
        ∀ before after, o.definition.body = before ++ ';' :: after → ';' ∉ before →
          rule.stop = place source (o.bodyStart + before.length + 1 : Nat) ∧
            Context.code.after before ≠ .code) := by
  obtain ⟨o, hwinner, hstands, hclosed, hrule⟩ := exists_winner h
  refine ⟨o, hwinner, hstands, hrule, fun hlocated => ?_⟩
  have hstart : (declarationSpan source o.definition.name).1 = place source (o.nameStart source) :=
    by rw [← hlocated, hrule]; rfl
  have hstop : rule.stop = (declarationSpan source o.definition.name).2 := by
    rw [hrule]
    rfl
  obtain ⟨gap, -, hdrop⟩ := hstands.drop_nameStart
  obtain ⟨-, hbody⟩ := hstands.nameStart_add hdrop
  have hinside := hstands.inside
  have hinner (before after : List Char) (heq : o.definition.body = before ++ ';' :: after)
      (hbefore : ';' ∉ before) :
      rule.stop = place source (o.bodyStart + before.length + 1 : Nat) := by
    rw [hstop]
    exact declarationSpan_stop hstands hbefore (by rw [heq, List.append_assoc]; rfl) hstart
  refine ⟨?_, fun before after heq hbefore => ⟨hinner before after heq hbefore, ?_⟩⟩
  · rw [ruleEnd_bodyStart hstands hclosed]
    constructor
    · intro hend hmem
      obtain ⟨before, after, heq, hbefore⟩ := List.eq_append_cons_of_mem hmem
      have hlength := congrArg List.length heq
      simp only [List.length_append, List.length_cons] at hlength
      rw [hinner before after heq hbefore, place_inj (by omega) hinside] at hend
      omega
    · intro hnone
      rw [hstop, declarationSpan_stop hstands hnone rfl hstart, hbody]
  · rw [heq] at hclosed
    exact hclosed.enclosed

/-- A lexer rule on two lines with a brace in a literal and one in a character set. -/
theorem stop_of_located_braces :
    let source := "fragment A : 'a' ;\n  B\n  : '\x7b' A | [\x7d] ;".toList
    ∃ rule ∈ extractRules source source, ∃ o, winner? source rule = some o ∧
      rule.start = place source (o.nameStart source) ∧ rule.stop = ⟨3, 17⟩ ∧
        rule.stop = place source (ruleEnd source o.bodyStart + 1 : Nat) := by
  intro source
  let rule : Rule := ⟨"B", .lexer, 2, 2, 3, 17, "B : '\x7b' A | [\x7d] ;", 2, ["A"], []⟩
  have hmem : rule ∈ extractRules source source := by decide +kernel
  obtain ⟨o, hwinner, -, -, hend⟩ := stop_eq_iff_of_located hmem
  have hfound : (winner? source rule).map (fun o => (o.nameStart source, o.definition.body)) =
      some (21, " '\x7b' A | [\x7d] ".toList) := by decide +kernel
  rw [hwinner, Option.map_some, Option.some.injEq, Prod.mk.injEq] at hfound
  have hstart : rule.start = place source (o.nameStart source) := by
    rw [hfound.1]
    decide +kernel
  have hbody : ';' ∉ o.definition.body := by
    rw [hfound.2]
    decide
  exact ⟨rule, hmem, o, hwinner, hstart, rfl, (hend hstart).1.mpr hbody⟩

/-- A text without comments and headers whose rule is reported at its name, and to end inside a
literal, three columns before its terminator. -/
theorem stop_in_literal :
    let source := "a : ';' ;".toList
    strip source = source ∧ ∃ rule ∈ extractRules source source, ∃ o,
      winner? source rule = some o ∧ rule.start = place source (o.nameStart source) ∧
        rule.stop = ⟨1, 6⟩ ∧ place source (ruleEnd source o.bodyStart + 1 : Nat) = ⟨1, 9⟩ := by
  intro source
  let rule : Rule := ⟨"a", .parser, 1, 0, 1, 6, "a : ';' ;", 1, [], []⟩
  have hmem : rule ∈ extractRules source source := by decide +kernel
  obtain ⟨o, hwinner, -⟩ := exists_winner hmem
  have hfound : (winner? source rule).map
      (fun o => (o.nameStart source, ruleEnd source o.bodyStart)) = some (0, 8) := by
    decide +kernel
  rw [hwinner, Option.map_some, Option.some.injEq, Prod.mk.injEq] at hfound
  refine ⟨by decide +kernel, rule, hmem, o, hwinner, ?_, rfl, ?_⟩
  · rw [hfound.1]
    decide +kernel
  · rw [hfound.2]
    decide +kernel

end Grammar

end GrammarAudit
