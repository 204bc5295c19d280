import GrammarAudit.Proofs.Distinct
import GrammarAudit.Proofs.Grammar.Declaration
import GrammarAudit.Proofs.Grammar.Printing

/-!
# Registration of rules

Which definitions become rules. There are three passes over the definitions with one set of claimed
names: first the fragments, then the names with a capital, then the names with a small letter. A
definition becomes a rule when its name is still free, and thereby claims it.

- `claim`, `extractRules_eq_passes`: the passes, and that the rules are what they register.
- `FirstOfEach`: a list of definitions that holds the first one of every eligible name.
- `firstOfEach_firstPerKey`: the definitions of a kind are such a list.
- `text_toRule`, `trim_ruleText`: the text of a rule.
- `mem_extractRules_iff`: a rule is one of a kind, made of a definition of that kind.
- `extractRules_precedence`: the rules of a grammar, kind by kind.
-/

namespace GrammarAudit.Grammar

open Text

/-! ## Three passes over one set of names -/

/-- The definitions that a pass registers: the accepted ones whose name nothing has claimed, and
each of them claims its name. -/
def claim (accepts : Definition → Bool) : List (List Char) → List Definition → List Definition
  | _, [] => []
  | claimed, d :: ds =>
    if accepts d && !claimed.contains d.name then d :: claim accepts (d.name :: claimed) ds
    else claim accepts claimed ds

/-- A pass registers the first accepted definition of every name that was free before it. -/
theorem claim_eq_firstPerKey (accepts : Definition → Bool) (claimed : List (List Char))
    (ds : List Definition) :
    claim accepts claimed ds =
      firstPerKey Definition.name (ds.filter fun d => accepts d && !claimed.contains d.name) := by
  induction ds generalizing claimed with
  | nil => rfl
  | cons d ds ih =>
    rw [claim, List.filter_cons]
    split
    · -- what the pass itself has claimed is what the first entries leave out
      have hrest : (ds.filter fun e => accepts e && !(d.name :: claimed).contains e.name) =
          (ds.filter fun e => accepts e && !claimed.contains e.name).filter
            fun e => e.name ≠ d.name := by
        rw [List.filter_filter]
        refine List.filter_congr fun e _ => ?_
        by_cases he : e.name = d.name
        · simp [he]
        · simp [he]
      rw [ih, firstPerKey, hrest, ← filter_firstPerKey fun name => name ≠ d.name]
    · exact ih claimed

/-- No name starts with a capital and with a small letter. -/
theorem startsLower_of_startsUpper {name : List Char} (h : startsUpper name = true) :
    startsLower name = false := by
  cases name with
  | nil => rfl
  | cons c name =>
    have hupper : decide (c.val ≥ 'A'.val ∧ c.val ≤ 'Z'.val) = true := h
    show (decide (c.val ≥ 'a'.val) && decide (c.val ≤ 'z'.val)) = false
    have high : c.val ≤ 'Z'.val := (of_decide_eq_true hupper).2
    have low : ¬c.val ≥ 'a'.val := fun hlow => absurd (UInt32.le_trans hlow high) (by decide)
    rw [decide_eq_false low, Bool.false_and]

variable {source cleaned : List Char} {d : Definition}

theorem startsUpper_of_mem_fragmentDefinitions
    (h : d ∈ fragmentDefinitions (scanDefinitions cleaned)) : startsUpper d.name = true := by
  have hmem := List.mem_filter.mp ((firstPerKey_sublist _ _).mem h)
  exact (wellFormed_of_mem_scanFrom hmem.1).capital hmem.2

theorem startsUpper_of_mem_lexerDefinitions {ds : List Definition}
    (h : d ∈ lexerDefinitions source ds) : startsUpper d.name = true := by
  have hmem := (List.mem_filter.mp ((firstPerKey_sublist _ _).mem h)).2
  simp only [Bool.and_eq_true] at hmem
  exact hmem.1.1.2

theorem startsLower_of_mem_parserDefinitions {ds : List Definition}
    (h : d ∈ parserDefinitions ds) : startsLower d.name = true := by
  have hmem := (List.mem_filter.mp ((firstPerKey_sublist _ _).mem h)).2
  simp only [Bool.and_eq_true] at hmem
  exact hmem.1.2

/-- The names that the first two passes claim start with a capital. -/
theorem startsUpper_of_claimed {name : List Char}
    (h : name ∈ (fragmentDefinitions (scanDefinitions cleaned) ++
      lexerDefinitions source (scanDefinitions cleaned)).map Definition.name) :
    startsUpper name = true := by
  obtain ⟨d, hd, rfl⟩ := List.mem_map.mp h
  rcases List.mem_append.mp hd with hd | hd
  · exact startsUpper_of_mem_fragmentDefinitions hd
  · exact startsUpper_of_mem_lexerDefinitions hd

/-- **Registration in three passes**: the rules are what three passes register that share one set
of claimed names. -/
theorem extractRules_eq_passes (source cleaned : List Char) :
    let ds := scanDefinitions cleaned
    let fragments := claim Definition.isFragment [] ds
    let lexers := claim (fun d => !d.isFragment && startsUpper d.name &&
      !declaresFragment source d.name) (fragments.map Definition.name) ds
    let parsers := claim (fun d => !d.isFragment && startsLower d.name &&
      !isKeyword (String.ofList d.name)) ((fragments ++ lexers).map Definition.name) ds
    extractRules source cleaned = fragments.map (·.toRule source .fragment) ++
      lexers.map (·.toRule source .lexer) ++ parsers.map (·.toRule source .parser) := by
  intro ds fragments lexers parsers
  have hfragments : fragments = fragmentDefinitions ds := by
    show claim _ _ _ = _
    rw [claim_eq_firstPerKey, fragmentDefinitions]
    congr 1
    exact List.filter_congr fun d _ => by simp
  have hlexers : lexers = lexerDefinitions source ds := by
    show claim _ _ _ = _
    rw [claim_eq_firstPerKey, lexerDefinitions, hfragments]
    congr 1
    refine List.filter_congr fun d _ => ?_
    rw [List.contains_eq_mem, ← decide_not]
    exact Bool.and_right_comm ..
  have hparsers : parsers = parserDefinitions ds := by
    show claim _ _ _ = _
    rw [claim_eq_firstPerKey, parserDefinitions, hfragments, hlexers]
    congr 1
    refine List.filter_congr fun d _ => ?_
    by_cases hlower : startsLower d.name = true
    · have hfree : d.name ∉ (fragmentDefinitions ds ++ lexerDefinitions source ds).map
          Definition.name := by
        intro h
        rw [startsLower_of_startsUpper (startsUpper_of_claimed h)] at hlower
        cases hlower
      simp only [List.contains_eq_mem, hfree, decide_false, Bool.not_false, Bool.and_true]
    · simp only [Bool.eq_false_iff.mpr hlower, Bool.and_false, Bool.false_and]
  rw [hfragments, hlexers, hparsers]
  rfl

/-! ## The first definition of every name -/

/-- Of the definitions that are fragments, or of those that are none, a list holds the first one of
every eligible name, in order, and no others. -/
structure FirstOfEach (ds : List Definition) (isFragment : Bool) (eligible : List Char → Prop)
    (chosen : List Definition) : Prop where
  inOrder : chosen.Sublist ds
  once : (chosen.map Definition.name).Nodup
  eligible_of_mem : ∀ d ∈ chosen, eligible d.name
  first : ∀ d ∈ chosen,
    ds.find? (fun e => e.isFragment = isFragment ∧ e.name = d.name) = some d
  complete : ∀ d ∈ ds, d.isFragment = isFragment → eligible d.name →
    d.name ∈ chosen.map Definition.name

/-- Where the accepted definitions are those of the eligible names, the first one per name is the
first one at all. -/
theorem firstOfEach_firstPerKey {ds : List Definition} {accepts : Definition → Bool}
    {isFragment : Bool} {eligible : List Char → Prop}
    (h : ∀ d ∈ ds, accepts d = true ↔ d.isFragment = isFragment ∧ eligible d.name) :
    FirstOfEach ds isFragment eligible (firstPerKey Definition.name (ds.filter accepts)) := by
  refine ⟨(firstPerKey_sublist _ _).trans List.filter_sublist, nodup_map_firstPerKey _ _,
    fun d hd => ?_, fun d hd => ?_, fun d hd hkind heligible => ?_⟩
  · obtain ⟨hmem, haccepts⟩ := List.mem_filter.mp ((firstPerKey_sublist _ _).mem hd)
    exact ((h d hmem).mp haccepts).2
  · obtain ⟨hmem, haccepts⟩ := List.mem_filter.mp ((firstPerKey_sublist _ _).mem hd)
    obtain ⟨hkind, heligible⟩ := (h d hmem).mp haccepts
    have hfind := find?_of_mem_firstPerKey hd
    rw [List.find?_filter] at hfind
    obtain ⟨-, before, after, heq, hnone⟩ := List.find?_eq_some_iff_append.mp hfind
    refine List.find?_eq_some_iff_append.mpr
      ⟨by simp [hkind], before, after, heq, fun e he => ?_⟩
    -- an earlier definition of the name and the flag would have been accepted
    have hnot := hnone e he
    simp only [Bool.not_eq_true', decide_eq_false_iff_not, decide_eq_true_eq] at hnot ⊢
    rintro ⟨hflag, hname⟩
    have hmem' : e ∈ ds := by rw [heq]; exact List.mem_append_left _ he
    exact hnot ⟨(h e hmem').mpr ⟨hflag, hname ▸ heligible⟩, hname⟩
  · have hmem : d ∈ ds.filter accepts :=
      List.mem_filter.mpr ⟨hd, (h d hd).mpr ⟨hkind, heligible⟩⟩
    exact mem_map_firstPerKey.mpr (List.mem_map_of_mem hmem)

theorem firstOfEach_fragmentDefinitions (ds : List Definition) :
    FirstOfEach ds true (fun _ => True) (fragmentDefinitions ds) :=
  firstOfEach_firstPerKey fun _ _ => by simp

theorem mem_map_name_fragmentDefinitions {ds : List Definition} {name : List Char} :
    name ∈ (fragmentDefinitions ds).map Definition.name ↔
      ∃ d ∈ ds, d.isFragment = true ∧ d.name = name := by
  rw [fragmentDefinitions, mem_map_firstPerKey, List.mem_map]
  simp only [List.mem_filter, and_assoc]

theorem firstOfEach_lexerDefinitions (source cleaned : List Char) :
    FirstOfEach (scanDefinitions cleaned) false
      (fun name => startsUpper name = true ∧
        (∀ d ∈ scanDefinitions cleaned, d.isFragment = true → d.name ≠ name) ∧
        ¬DeclaredAsFragment source name)
      (lexerDefinitions source (scanDefinitions cleaned)) := by
  refine firstOfEach_firstPerKey fun d hd => ?_
  have hname : IsName d.name := (wellFormed_of_mem_scanFrom hd).isName
  simp only [Bool.and_eq_true, Bool.not_eq_true', decide_eq_true_eq, ← declaresFragment_iff hname,
    Bool.not_eq_true, mem_map_name_fragmentDefinitions, not_exists, not_and, and_assoc, ne_eq]

theorem firstOfEach_parserDefinitions (ds : List Definition) :
    FirstOfEach ds false
      (fun name => startsLower name = true ∧ isKeyword (String.ofList name) = false)
      (parserDefinitions ds) :=
  firstOfEach_firstPerKey fun _ _ => by
    simp only [Bool.and_eq_true, Bool.not_eq_true', and_assoc]

/-! ## The text of a rule -/

theorem text_toRule (source : List Char) (kind : Kind) (d : Definition) :
    (d.toRule source kind).text =
      (if kind = .fragment then "fragment " else "") ++ String.ofList d.name ++ " :" ++
        String.ofList d.body ++ ";" := by
  have hprefix : (if kind = .fragment then "fragment " else "").toList =
      if kind = .fragment then fragmentWord ++ [' '] else [] := by
    cases kind <;> rfl
  show String.ofList (d.ruleText kind) = _
  apply String.toList_inj.mp
  simp only [String.toList_append, String.toList_ofList, hprefix]
  rfl

/-- A text between a character and another that are no blanks has nothing to trim. -/
theorem trim_eq_self {c e : Char} (hc : isBlank c = false) (he : isBlank e = false)
    (s : List Char) : trim (c :: s ++ [e]) = c :: s ++ [e] := by
  have hstart : trimStart (c :: s ++ [e]) = c :: s ++ [e] := by
    rw [List.cons_append, trimStart, List.dropWhile_cons_of_neg (by simp [hc])]
  rw [trim, hstart, trimEnd, List.reverse_append, List.reverse_singleton, List.singleton_append,
    List.dropWhile_cons_of_neg (by simp [he]), ← List.singleton_append, List.reverse_append,
    List.reverse_reverse, List.reverse_singleton]

/-- The text of a rule has no blanks around it. -/
theorem trim_ruleText (h : d.WellFormed) (kind : Kind) :
    trim (d.ruleText kind) = d.ruleText kind := by
  obtain ⟨name, body, isFragment⟩ := d
  obtain ⟨c, rest, rfl, hc⟩ := h.isName.exists_cons
  have hblank : isBlank c = false := not_isBlank_of_isIdentChar (isIdentChar_of_isAlpha hc)
  have hrule : trim (c :: (rest ++ [' ', ':'] ++ body) ++ [';']) =
      c :: (rest ++ [' ', ':'] ++ body) ++ [';'] := trim_eq_self hblank (by decide) _
  have hfragment : trim ('f' :: ("ragment ".toList ++ c :: rest ++ [' ', ':'] ++ body) ++ [';']) =
      'f' :: ("ragment ".toList ++ c :: rest ++ [' ', ':'] ++ body) ++ [';'] :=
    trim_eq_self (by decide) (by decide) _
  cases kind with
  | parser => exact hrule
  | lexer => exact hrule
  | fragment => exact hfragment

/-! ## The rules of a grammar -/

theorem mem_extractRules_iff {rule : Rule} :
    rule ∈ extractRules source cleaned ↔
      (∃ d ∈ fragmentDefinitions (scanDefinitions cleaned), rule = d.toRule source .fragment) ∨
      (∃ d ∈ lexerDefinitions source (scanDefinitions cleaned), rule = d.toRule source .lexer) ∨
      ∃ d ∈ parserDefinitions (scanDefinitions cleaned), rule = d.toRule source .parser := by
  simp only [extractRules, List.mem_append, List.mem_map, or_assoc, eq_comm (a := rule)]

/-- The definitions of a kind are the first ones of their names that are fragments or not. -/
theorem exists_definition_of_mem_extractRules {rule : Rule}
    (h : rule ∈ extractRules source cleaned) :
    ∃ d, rule = d.toRule source rule.kind ∧ (scanDefinitions cleaned).find?
      (fun e => e.isFragment = decide (rule.kind = .fragment) ∧ e.name = d.name) = some d := by
  rcases mem_extractRules_iff.mp h with ⟨d, hd, rfl⟩ | ⟨d, hd, rfl⟩ | ⟨d, hd, rfl⟩
  · exact ⟨d, rfl, (firstOfEach_fragmentDefinitions _).first d hd⟩
  · exact ⟨d, rfl, (firstOfEach_lexerDefinitions source cleaned).first d hd⟩
  · exact ⟨d, rfl, (firstOfEach_parserDefinitions _).first d hd⟩

/-- No two of the registered definitions have one name. -/
theorem nodup_names (source cleaned : List Char) :
    ((fragmentDefinitions (scanDefinitions cleaned) ++
      lexerDefinitions source (scanDefinitions cleaned) ++
        parserDefinitions (scanDefinitions cleaned)).map Definition.name).Nodup := by
  have hfragments := (firstOfEach_fragmentDefinitions (scanDefinitions cleaned)).once
  have hlexers := firstOfEach_lexerDefinitions source cleaned
  have hparsers := (firstOfEach_parserDefinitions (scanDefinitions cleaned)).once
  rw [List.map_append, List.nodup_append]
  refine ⟨?_, hparsers, fun name hname other hother heq => ?_⟩
  · rw [List.map_append, List.nodup_append]
    refine ⟨hfragments, hlexers.once, fun name hname other hother heq => ?_⟩
    -- a lexer rule has a name that no fragment definition has
    obtain ⟨d, hd, hkind, rfl⟩ := mem_map_name_fragmentDefinitions.mp hname
    obtain ⟨e, he, rfl⟩ := List.mem_map.mp hother
    exact (hlexers.eligible_of_mem e he).2.1 d hd hkind heq
  · have hupper : startsUpper name = true := startsUpper_of_claimed hname
    obtain ⟨e, he, rfl⟩ := List.mem_map.mp hother
    have hlower := startsLower_of_mem_parserDefinitions he
    rw [← heq, startsLower_of_startsUpper hupper] at hlower
    cases hlower

end GrammarAudit.Grammar
