import GrammarAudit.Proofs.Grammar.Scan

/-!
# Definitions written out and read back

A definition that is written out on a line of its own is read back as it was, and the scan goes on
right after it, whatever that is. So a list of definitions survives printing and scanning; the
definitions that can be found at all are the only ones that do.

- `Definition.WellFormed`: what a definition has to be to be read back.
- `ruleEnd_eq_length_iff`: the bodies that end at the semicolon put after them.
- `scanFrom_print_append`: scanning one definition, with anything after it.
- `wellFormed_of_mem_scanFrom`: all that a scan finds is well formed.
- `scanDefinitions_flatMap_print_iff`: the lists that survive printing and scanning.
-/

namespace GrammarAudit.Grammar

open Text

/-! ## Well-formed definitions -/

/-- A name, with a capital first for a fragment, and a body that the first terminator after it
ends. -/
structure Definition.WellFormed (d : Definition) : Prop where
  isName : IsName d.name
  capital : d.isFragment = true → startsUpper d.name = true
  ends : ruleEnd (d.body ++ [';']) 0 = d.body.length

/-- The semicolon put after a text is its first terminator exactly if the text is closed. -/
theorem ruleEnd_eq_length_iff {body : List Char} :
    ruleEnd (body ++ [';']) 0 = body.length ↔ Closed body := by
  unfold ruleEnd
  rw [List.drop_zero]
  constructor
  · intro h
    cases hsplit : splitTerminator .code (body ++ [';']) with
    | none =>
      rw [hsplit] at h
      simp at h
    | some found =>
      obtain ⟨found, tail⟩ := found
      rw [hsplit] at h
      have hlen : found.length = body.length := by simpa using h
      obtain ⟨hclosed, heq⟩ := splitTerminator_code_iff.mp hsplit
      -- two texts before the first terminator of one length are one text
      have hbody : body = found := (List.append_inj heq hlen.symm).1
      rw [hbody]
      exact hclosed
  · intro h
    rw [splitTerminator_code_iff.mpr ⟨h, rfl⟩]
    exact Nat.zero_add _

theorem Definition.WellFormed.closed {d : Definition} (h : d.WellFormed) : Closed d.body :=
  ruleEnd_eq_length_iff.mp h.ends

/-! ## Steps of the scan -/

/-- A heading begins with a letter. -/
theorem Heading.exists_cons {isFragment : Bool} {name head : List Char}
    (h : Heading isFragment name head) : ∃ c rest, head = c :: rest ∧ isIdentStart c = true := by
  cases h with
  | @rule name gap hn hg =>
    obtain ⟨c, cs, rfl, hc⟩ := hn.exists_cons
    exact ⟨c, cs ++ gap ++ [':'], rfl, by simp [isIdentStart, hc]⟩
  | @fragment space name gap hne hs hn hg =>
    exact ⟨'f', "ragment".toList ++ space ++ name ++ gap ++ [':'], rfl, by decide⟩

theorem Heading.isName {isFragment : Bool} {name head : List Char}
    (h : Heading isFragment name head) : IsName name := by
  cases h with
  | rule hn _ => exact hn
  | fragment _ _ hn _ => exact hn

/-- Where a definition can be read it is found, and the scan goes on after it. -/
theorem scanFrom_of_readDefinition? {s tail : List Char} {d : Definition}
    (h : readDefinition? s = some (d, tail)) :
    scanFrom .code false s = d :: scanFrom .code false tail := by
  obtain ⟨head, hheading, -, -, heq⟩ := readDefinition?_eq_some_iff.mp h
  obtain ⟨c, rest, rfl, hc⟩ := hheading.exists_cons
  rw [List.cons_append] at heq
  rw [heq] at h ⊢
  rw [scanFrom, if_pos ⟨rfl, hc, rfl⟩]
  split
  · next hsome =>
    rw [h] at hsome
    cases hsome
    rfl
  · next hnone =>
    rw [h] at hnone
    cases hnone

/-- A blank in code is passed over. -/
theorem scanFrom_blank_cons {c : Char} (hc : isBlank c = true) (afterIdent : Bool)
    (s : List Char) : scanFrom .code afterIdent (c :: s) = scanFrom .code false s := by
  have hident : isIdentChar c = false := not_isIdentChar_of_isBlank hc
  have hstart : ¬ isIdentStart c = true := by
    intro h
    rw [isIdentChar_of_isIdentStart h] at hident
    cases hident
  rw [scanFrom, if_neg fun h => hstart h.2.1, (isPlain_of_isBlank hc).1, hident]

/-! ## Printing and scanning -/

/-- A definition written out is a heading, the body, a semicolon and a line feed. -/
theorem Definition.WellFormed.exists_heading {d : Definition} (h : d.WellFormed) :
    ∃ head, Heading d.isFragment d.name head ∧ d.print = head ++ (d.body ++ [';', '\n']) := by
  have hblank : AllBlank [' '] := by
    intro c hc
    rw [List.mem_singleton.mp hc]
    decide
  obtain ⟨name, body, isFragment⟩ := d
  cases isFragment with
  | false => exact ⟨name ++ [' '] ++ [':'], .rule h.isName hblank, by simp [Definition.print]⟩
  | true =>
    exact ⟨fragmentWord ++ [' '] ++ name ++ [' '] ++ [':'],
      .fragment (List.cons_ne_nil _ _) hblank h.isName hblank, by simp [Definition.print]⟩

/-- A definition written out is read back, whatever comes after it. -/
theorem scanFrom_print_append {d : Definition} (h : d.WellFormed) (s : List Char) :
    scanFrom .code false (d.print ++ s) = d :: scanFrom .code false s := by
  obtain ⟨head, hheading, hprint⟩ := h.exists_heading
  have hread : readDefinition? (d.print ++ s) = some (d, '\n' :: s) :=
    readDefinition?_eq_some_iff.mpr
      ⟨head, hheading, h.capital, h.closed, by rw [hprint]; simp⟩
  rw [scanFrom_of_readDefinition? hread, scanFrom_blank_cons (by decide)]

/-- A list of definitions written out is read back, whatever comes after it. -/
theorem scanFrom_flatMap_print_append {ds : List Definition} (h : ∀ d ∈ ds, d.WellFormed)
    (s : List Char) :
    scanFrom .code false (ds.flatMap Definition.print ++ s) = ds ++ scanFrom .code false s := by
  induction ds with
  | nil => rfl
  | cons d ds ih =>
    have hd : d.WellFormed := h d List.mem_cons_self
    rw [List.flatMap_cons, List.append_assoc, scanFrom_print_append hd,
      ih fun e he => h e (List.mem_cons_of_mem d he)]
    rfl

theorem scanDefinitions_flatMap_print {ds : List Definition} (h : ∀ d ∈ ds, d.WellFormed) :
    scanDefinitions (ds.flatMap Definition.print) = ds := by
  have hscan := scanFrom_flatMap_print_append h []
  rw [List.append_nil, scanFrom, List.append_nil] at hscan
  exact hscan

/-- A definition that can be read is well formed. -/
theorem wellFormed_of_readDefinition? {s tail : List Char} {d : Definition}
    (h : readDefinition? s = some (d, tail)) : d.WellFormed := by
  obtain ⟨head, hheading, hcapital, hclosed, -⟩ := readDefinition?_eq_some_iff.mp h
  exact ⟨hheading.isName, hcapital, ruleEnd_eq_length_iff.mpr hclosed⟩

/-- All that a scan finds is well formed, whatever it starts in. -/
theorem wellFormed_of_mem_scanFrom {context : Context} {afterIdent : Bool} {s : List Char}
    {d : Definition} (h : d ∈ scanFrom context afterIdent s) : d.WellFormed := by
  fun_induction scanFrom context afterIdent s with
  | case1 => cases h
  | case2 context afterIdent c rest hc found tail hread ih =>
    rcases List.mem_cons.mp h with rfl | h
    · exact wellFormed_of_readDefinition? hread
    · exact ih h
  | case3 context afterIdent c rest hc hread ih => exact ih h
  | case4 context afterIdent c rest hc ih => exact ih h

/-- **Scanning undoes printing**: a list of definitions that is written out and scanned comes back
as it was, in order, with all names, bodies and flags, exactly if every definition in it is well
formed. -/
theorem scanDefinitions_flatMap_print_iff (ds : List Definition) :
    scanDefinitions (ds.flatMap Definition.print) = ds ↔ ∀ d ∈ ds, d.WellFormed := by
  constructor
  · intro h d hd
    rw [← h] at hd
    exact wellFormed_of_mem_scanFrom hd
  · exact scanDefinitions_flatMap_print

end GrammarAudit.Grammar
