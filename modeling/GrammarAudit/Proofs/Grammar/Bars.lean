import GrammarAudit.Proofs.Grammar.Registration
import GrammarAudit.Proofs.Graph.Adjacency
import GrammarAudit.Proofs.Text.Stretch
import GrammarAudit.Report.Run

/-!
# Two counts of alternatives

The number of alternatives that a rule is recorded with counts the bars outside literals and
parentheses. The alternatives themselves are cut at the bars outside literals and brackets of any
kind. Both go by the same literals, so they part only at bars before which the parentheses balance
and the other brackets do not, or at bars before which only both kinds together do.

- `bars`, `Brackets.depthAt`: the bars outside literals, and how many brackets are open there.
- `balancedBars`, `joints_splitBars`: the bars at depth zero, and the pieces that they cut.
- `countBars_codeChars`, `length_splitBars`: the two counts as numbers of bars at depth zero.
- `countAlternatives_eq`, `length_splitAlternatives_ruleText`: the same for the text of a rule.
- `alternatives_of_report`: the two counts of a rule, and where they agree.
- `alternatives_of_set`: a character set of one bar, on which they do not.
-/

namespace GrammarAudit.Grammar

open Text

/-! ## Bars outside literals -/

/-- The literal that is open after a character. -/
def literalStep (opened : Option Char) (afterBackslash : Bool) (c : Char) : Option Char :=
  if isLiteralMark afterBackslash c then toggleLiteral opened c else opened

/-- The literal that is open after a text. -/
def literalAfter (opened : Option Char) (afterBackslash : Bool) : List Char → Option Char
  | [] => opened
  | c :: rest => literalAfter (literalStep opened afterBackslash c) (c = '\\') rest

/-- The positions of the bars outside literals, given the literal that is open at the start and
whether a backslash comes before it. -/
def barsFrom (opened : Option Char) (afterBackslash : Bool) (s : List Char) : List Nat :=
  (List.range s.length).filter fun i =>
    s[i]? = some '|' && (literalAfter opened afterBackslash (s.take i)).isNone

/-- The positions of the bars of a text outside literals. -/
def bars (s : List Char) : List Nat :=
  barsFrom none false s

theorem barsFrom_cons (opened : Option Char) (afterBackslash : Bool) (c : Char)
    (rest : List Char) :
    barsFrom opened afterBackslash (c :: rest) =
      (if c = '|' ∧ opened = none then [0] else []) ++
        (barsFrom (literalStep opened afterBackslash c) (c = '\\') rest).map Nat.succ := by
  rw [barsFrom, List.length_cons, List.range_succ_eq_map, List.filter_cons, List.filter_map]
  by_cases h : c = '|' ∧ opened = none
  · simp [h, literalAfter, barsFrom, Function.comp_def]
  · rw [if_neg h, if_neg]
    · rfl
    · simpa [literalAfter] using h

/-! ## Depth in brackets -/

/-- Brackets that are counted together. -/
structure Brackets where
  opening : List Char
  closing : List Char

namespace Brackets

/-- The parentheses. -/
def round : Brackets := ⟨['('], [')']⟩

/-- The square and the curly brackets. -/
def other : Brackets := ⟨['[', '{'], [']', '}']⟩

/-- The brackets of all kinds. -/
def all : Brackets := ⟨['(', '[', '{'], [')', ']', '}']⟩

/-- How many more brackets a text opens than it closes outside literals, given the literal that is
open at the start and whether a backslash comes before it. -/
def surplus (b : Brackets) (opened : Option Char) (afterBackslash : Bool) (s : List Char) : Int :=
  (codeChars opened afterBackslash s).countP b.opening.contains -
    (codeChars opened afterBackslash s).countP b.closing.contains

/-- How many more brackets are opened than closed outside literals before a position. -/
def depthAt (b : Brackets) (s : List Char) (i : Nat) : Int :=
  b.surplus none false (s.take i)

/-- The change of depth at a character, which is none in a literal or at the mark of one. -/
def change (b : Brackets) (opened : Option Char) (afterBackslash : Bool) (c : Char) : Int :=
  if isLiteralMark afterBackslash c = false ∧ opened = none then
    (if b.opening.contains c then 1 else 0) - (if b.closing.contains c then 1 else 0)
  else 0

theorem surplus_cons (b : Brackets) (opened : Option Char) (afterBackslash : Bool) (c : Char)
    (rest : List Char) :
    b.surplus opened afterBackslash (c :: rest) =
      b.change opened afterBackslash c +
        b.surplus (literalStep opened afterBackslash c) (c = '\\') rest := by
  unfold surplus change literalStep
  rw [codeChars]
  cases hmark : isLiteralMark afterBackslash c with
  | true => simp
  | false =>
    by_cases hopen : opened = none
    · simp only [hopen, if_true, if_false, Bool.false_eq_true, and_self, List.countP_cons]
      split <;> split <;> omega
    · simp [hopen]

/-- Outside literals the depths of the alternatives are those of all brackets. -/
theorem change_all_of_code {afterBackslash : Bool} {c : Char}
    (h : isLiteralMark afterBackslash c = false) :
    all.change none afterBackslash c = bracketChange c := by
  simp only [change, h, all, bracketChange, List.contains_iff_mem, and_self, if_true,
    List.mem_cons, List.not_mem_nil, or_false]
  by_cases hopens : c = '(' ∨ c = '[' ∨ c = '{'
  · rcases hopens with rfl | rfl | rfl <;> decide
  · rw [if_neg hopens, if_neg hopens]
    split <;> rfl

theorem change_all_eq (opened : Option Char) (afterBackslash : Bool) (c : Char) :
    all.change opened afterBackslash c =
      round.change opened afterBackslash c + other.change opened afterBackslash c := by
  unfold change
  split
  · simp only [all, round, other, List.contains_iff_mem, List.mem_cons, List.not_mem_nil, or_false]
    by_cases hopens : c = '(' ∨ c = '[' ∨ c = '{'
    · rcases hopens with rfl | rfl | rfl <;> decide
    · by_cases hcloses : c = ')' ∨ c = ']' ∨ c = '}'
      · rcases hcloses with rfl | rfl | rfl <;> decide
      · simp_all
  · rfl

/-- All brackets are the parentheses and the others. -/
theorem surplus_all_eq (opened : Option Char) (afterBackslash : Bool) (s : List Char) :
    all.surplus opened afterBackslash s =
      round.surplus opened afterBackslash s + other.surplus opened afterBackslash s := by
  induction s generalizing opened afterBackslash with
  | nil => rfl
  | cons c rest ih =>
    rw [surplus_cons, surplus_cons, surplus_cons, ih, change_all_eq]
    omega

end Brackets

theorem not_bar_of_isLiteralMark {afterBackslash : Bool} {c : Char}
    (h : isLiteralMark afterBackslash c = true) : c ≠ '|' ∧ bracketChange c = 0 := by
  have hquote : isQuote c = true := (Bool.and_eq_true_iff.mp h).1
  simp only [isQuote, Bool.or_eq_true, decide_eq_true_eq] at hquote
  rcases hquote with rfl | rfl <;> decide

/-! ## The two counts -/

/-- The positions of the bars outside literals at depth zero, given the depth at the start. -/
def balancedBars (b : Brackets) (depth : Int) (opened : Option Char) (afterBackslash : Bool)
    (s : List Char) : List Nat :=
  (barsFrom opened afterBackslash s).filter fun i =>
    depth + b.surplus opened afterBackslash (s.take i) = 0

/-- The number of bars outside literals at depth zero, given the depth at the start. -/
def barsAtZero (b : Brackets) (depth : Int) (opened : Option Char) (afterBackslash : Bool)
    (s : List Char) : Nat :=
  (barsFrom opened afterBackslash s).countP fun i =>
    depth + b.surplus opened afterBackslash (s.take i) = 0

/-- A character is one of them if it is a bar at depth zero, and shifts the depth of the rest. -/
theorem balancedBars_cons (b : Brackets) (depth : Int) (opened : Option Char)
    (afterBackslash : Bool) (c : Char) (rest : List Char) :
    balancedBars b depth opened afterBackslash (c :: rest) =
      (if c = '|' ∧ opened = none ∧ depth = 0 then [0] else []) ++
        (balancedBars b (depth + b.change opened afterBackslash c)
          (literalStep opened afterBackslash c) (c = '\\') rest).map Nat.succ := by
  unfold balancedBars
  rw [barsFrom_cons, List.filter_append, List.filter_map]
  congr 1
  · by_cases hbar : c = '|' ∧ opened = none
    · simp [hbar, Brackets.surplus, codeChars, List.filter_cons]
    · rw [if_neg hbar, if_neg fun h => hbar ⟨h.1, h.2.1⟩]
      rfl
  · refine congrArg _ (List.filter_congr fun i _ => ?_)
    simp only [Function.comp_apply, List.take_succ_cons, Brackets.surplus_cons, Int.add_assoc]

theorem barsAtZero_cons (b : Brackets) (depth : Int) (opened : Option Char)
    (afterBackslash : Bool) (c : Char) (rest : List Char) :
    barsAtZero b depth opened afterBackslash (c :: rest) =
      (if c = '|' ∧ opened = none ∧ depth = 0 then 1 else 0) +
        barsAtZero b (depth + b.change opened afterBackslash c)
          (literalStep opened afterBackslash c) (c = '\\') rest := by
  have hlength := congrArg List.length (balancedBars_cons b depth opened afterBackslash c rest)
  rw [List.length_append, List.length_map, apply_ite List.length] at hlength
  rw [barsAtZero, List.countP_eq_length_filter, barsAtZero, List.countP_eq_length_filter]
  exact hlength

/-- The recorded number counts the bars at which the parentheses balance. -/
theorem countBars_codeChars (depth : Int) (opened : Option Char) (afterBackslash : Bool)
    (s : List Char) :
    countBars depth (codeChars opened afterBackslash s) =
      barsAtZero .round depth opened afterBackslash s := by
  induction s generalizing depth opened afterBackslash with
  | nil => rfl
  | cons c rest ih =>
    rw [barsAtZero_cons, ← ih, codeChars, literalStep, Brackets.change]
    cases hmark : isLiteralMark afterBackslash c with
    | true => simp [(not_bar_of_isLiteralMark hmark).1]
    | false =>
      by_cases hopen : opened = none
      · subst hopen
        by_cases hopens : c = '('
        · simp [countBars, Brackets.round, hopens]
        · by_cases hcloses : c = ')'
          · simp [countBars, Brackets.round, hcloses, Int.sub_eq_add_neg]
          · by_cases hbar : c = '|' ∧ depth = 0
            · simp [countBars, Brackets.round, hbar, Nat.add_comm]
            · simp [countBars, Brackets.round, hopens, hcloses, hbar]
      · simp [hopen]

theorem splitBars_cons (opened : Option Char) (afterBackslash : Bool) (depth : Int) (c : Char)
    (rest : List Char) :
    splitBars opened afterBackslash depth (c :: rest) =
      if literalStep opened afterBackslash c = none then
        if c = '|' ∧ depth = 0 then
          [] :: splitBars (literalStep opened afterBackslash c) false depth rest
        else
          consFirst c (splitBars (literalStep opened afterBackslash c) (c = '\\')
            (depth + bracketChange c) rest)
      else consFirst c (splitBars (literalStep opened afterBackslash c) (c = '\\') depth rest) :=
  rfl

/-- The positions of the bars that join some pieces to one text. -/
def joints : List (List Char) → List Nat
  | [] => []
  | [_] => []
  | piece :: pieces => piece.length :: (joints pieces).map (piece.length + 1 + ·)

theorem length_joints {pieces : List (List Char)} (h : pieces ≠ []) :
    (joints pieces).length + 1 = pieces.length := by
  fun_induction joints pieces with
  | case1 => exact absurd rfl h
  | case2 piece => rfl
  | case3 piece pieces hpieces ih =>
    rw [List.length_cons, List.length_map, List.length_cons, ih fun hnil => hpieces hnil]

theorem joints_cons (piece : List Char) {pieces : List (List Char)} (h : pieces ≠ []) :
    joints (piece :: pieces) =
      piece.length :: (joints pieces).map (piece.length + 1 + ·) := by
  rw [joints]
  exact h

theorem joints_consFirst (c : Char) {pieces : List (List Char)} (h : pieces ≠ []) :
    joints (consFirst c pieces) = (joints pieces).map Nat.succ := by
  obtain ⟨piece, rest, rfl⟩ := List.exists_cons_of_ne_nil h
  by_cases hrest : rest = []
  · subst hrest
    rfl
  · rw [consFirst, joints_cons _ hrest, joints_cons _ hrest, List.map_cons, List.map_map]
    refine congrArg _ (List.map_congr_left fun i _ => ?_)
    simp only [List.length_cons, Function.comp_apply]
    omega

theorem consFirst_ne_nil (c : Char) (pieces : List (List Char)) : consFirst c pieces ≠ [] := by
  cases pieces <;> exact List.cons_ne_nil _ _

theorem splitBars_ne_nil (opened : Option Char) (afterBackslash : Bool) (depth : Int)
    (s : List Char) : splitBars opened afterBackslash depth s ≠ [] := by
  cases s with
  | nil => exact List.cons_ne_nil _ _
  | cons c rest =>
    rw [splitBars_cons]
    split
    · split
      · exact List.cons_ne_nil _ _
      · exact consFirst_ne_nil _ _
    · exact consFirst_ne_nil _ _

/-- The pieces are cut at the bars at which the brackets of all kinds balance. -/
theorem joints_splitBars (depth : Int) (opened : Option Char) (afterBackslash : Bool)
    (s : List Char) :
    joints (splitBars opened afterBackslash depth s) =
      balancedBars .all depth opened afterBackslash s := by
  induction s generalizing depth opened afterBackslash with
  | nil => rfl
  | cons c rest ih =>
    have hcons (depth : Int) (opened : Option Char) :
        joints (consFirst c (splitBars opened (c = '\\') depth rest)) =
          (balancedBars .all depth opened (c = '\\') rest).map Nat.succ := by
      rw [joints_consFirst c (splitBars_ne_nil _ _ _ _), ih]
    rw [balancedBars_cons, splitBars_cons]
    cases hmark : isLiteralMark afterBackslash c with
    | true =>
      -- a mark is neither a bar nor a bracket
      obtain ⟨hbar, hbracket⟩ := not_bar_of_isLiteralMark hmark
      simp [hbar, hbracket, hcons, literalStep, Brackets.change, hmark]
    | false =>
      by_cases hopen : opened = none
      · subst hopen
        rw [Brackets.change_all_of_code hmark, literalStep, hmark]
        by_cases hbar : c = '|' ∧ depth = 0
        · obtain ⟨rfl, rfl⟩ := hbar
          have hrest : splitBars none false 0 rest ≠ [] := splitBars_ne_nil _ _ _ _
          simp [joints_cons _ hrest, ih, bracketChange, Nat.add_comm]
        · simp [hbar, hcons]
      · simp [hopen, hcons, literalStep, Brackets.change, hmark]

theorem length_splitBars (depth : Int) (opened : Option Char) (afterBackslash : Bool)
    (s : List Char) :
    (splitBars opened afterBackslash depth s).length =
      barsAtZero .all depth opened afterBackslash s + 1 := by
  rw [← length_joints (splitBars_ne_nil _ _ _ _), joints_splitBars, balancedBars,
    ← List.countP_eq_length_filter]
  rfl

/-! ## The alternatives of a rule -/

theorem countAlternatives_eq (ruleText : List Char) :
    countAlternatives ruleText =
      ((bars ruleText).countP fun i => Brackets.round.depthAt ruleText i = 0) + 1 := by
  rw [countAlternatives, countBars_codeChars, barsAtZero]
  simp only [Int.zero_add]
  rfl

theorem mem_trim_of_not_isBlank {s : List Char} {c : Char} (h : c ∈ s) (hc : isBlank c = false) :
    c ∈ trim s := by
  have hkept {s : List Char} (h : c ∈ s) : c ∈ s.dropWhile isBlank := by
    rw [← List.takeWhile_append_dropWhile (p := isBlank) (l := s), List.mem_append] at h
    refine h.resolve_left fun hmem => ?_
    rw [List.all_eq_true.mp List.all_takeWhile c hmem] at hc
    cases hc
  have hstart : c ∈ trimStart s := hkept h
  exact List.mem_reverse.mpr (hkept (List.mem_reverse.mpr hstart))

/-- The last piece of a text that ends with a semicolon ends with it too. -/
theorem semicolon_mem_getLast?_splitBars (depth : Int) (opened : Option Char)
    (afterBackslash : Bool) (s : List Char) :
    ∃ piece, (splitBars opened afterBackslash depth (s ++ [';'])).getLast? = some piece ∧
      ';' ∈ piece := by
  have hcons (c : Char) {pieces : List (List Char)}
      (h : ∃ piece, pieces.getLast? = some piece ∧ ';' ∈ piece) :
      ∃ piece, (consFirst c pieces).getLast? = some piece ∧ ';' ∈ piece := by
    obtain ⟨piece, hlast, hmem⟩ := h
    match pieces, hlast with
    | [_], rfl => exact ⟨c :: piece, rfl, List.mem_cons_of_mem c hmem⟩
    | _ :: next :: pieces, hlast =>
      refine ⟨piece, ?_, hmem⟩
      rw [consFirst, List.getLast?_cons_cons, ← hlast, List.getLast?_cons_cons]
  induction s generalizing depth opened afterBackslash with
  | nil =>
    have hlast : (splitBars opened afterBackslash depth [';']).getLast? = some [';'] := by
      simp [splitBars, consFirst]
    exact ⟨[';'], hlast, List.mem_cons_self⟩
  | cons c s ih =>
    rw [List.cons_append, splitBars_cons]
    split
    · split
      · obtain ⟨piece, hlast, hmem⟩ := ih depth (literalStep opened afterBackslash c) false
        refine ⟨piece, ?_, hmem⟩
        rw [List.getLast?_cons, hlast]
        rfl
      · exact hcons c (ih ..)
    · exact hcons c (ih ..)

/-- Trimming keeps the number of pieces unless the last one is blank. -/
theorem length_trimPieces {pieces : List (List Char)} {piece : List Char}
    (hlast : pieces.getLast? = some piece) (h : trim piece ≠ []) :
    (trimPieces pieces).length = pieces.length := by
  induction pieces with
  | nil => rfl
  | cons first pieces ih =>
    cases pieces with
    | nil =>
      obtain rfl : first = piece := Option.some.inj hlast
      rw [trimPieces, if_neg h]
      rfl
    | cons next pieces =>
      rw [List.getLast?_cons_cons] at hlast
      show (trimPieces (next :: pieces)).length + 1 = _
      rw [ih hlast]
      rfl

/-- The characters that the two counts look at. -/
def countedChars : List Char :=
  ['\'', '"', '\\', '|', '(', '[', '{', ')', ']', '}']

/-- What holds none of these characters can be left out in front of a text. -/
theorem barsAtZero_all_append {s : List Char} (h : ∀ c ∈ s, c ∉ countedChars) (depth : Int)
    (t : List Char) :
    barsAtZero .all depth none false (s ++ t) = barsAtZero .all depth none false t := by
  induction s with
  | nil => rfl
  | cons c s ih =>
    have hc := h c List.mem_cons_self
    simp only [countedChars, List.mem_cons, List.not_mem_nil, or_false, not_or] at hc
    have hmark : isLiteralMark false c = false := by simp [isLiteralMark, isQuote, hc]
    have hchange : Brackets.all.change none false c = 0 := by
      rw [Brackets.change_all_of_code hmark, bracketChange]
      simp [hc]
    rw [List.cons_append, barsAtZero_cons, hchange, literalStep, hmark]
    simp only [hc, false_and, if_false, Bool.false_eq_true, decide_false, Nat.zero_add,
      Int.add_zero]
    exact ih fun c hc => h c (List.mem_cons_of_mem _ hc)

/-- The text of a rule is its heading, which is made of words, and after the colon its body. -/
theorem exists_ruleText_eq {d : Definition} (h : IsName d.name) (kind : Kind) :
    ∃ head, d.ruleText kind = (head ++ [':']) ++ (d.body ++ [';']) ∧
      ∀ c ∈ head, isIdentChar c = true ∨ c = ' ' := by
  refine ⟨(if kind = .fragment then fragmentWord ++ [' '] else []) ++ d.name ++ [' '], ?_, ?_⟩
  · simp [Definition.ruleText]
  · have hword : (fragmentWord ++ [' ']).all fun c => isIdentChar c || c = ' ' := by decide
    intro c hc
    rcases List.mem_append.mp hc with hc | hc
    · rcases List.mem_append.mp hc with hc | hc
      · split at hc
        · simpa using List.all_eq_true.mp hword c hc
        · cases hc
      · exact .inl (h.2 c hc)
    · exact .inr (List.mem_singleton.mp hc)

/-- The body of a rule is read back from its text, with the semicolon. -/
theorem body?_ruleText {d : Definition} (h : IsName d.name) (kind : Kind) :
    body? (d.ruleText kind) = some (d.body ++ [';']) := by
  obtain ⟨head, htext, hhead⟩ := exists_ruleText_eq h kind
  have hcolon : ':' ∉ head := by
    intro hmem
    rcases hhead ':' hmem with h | h <;> revert h <;> decide
  rw [htext, List.append_assoc]
  exact afterFirst?_of_not_mem hcolon

/-- The heading of a rule holds nothing that is counted. -/
theorem barsAtZero_ruleText {d : Definition} (h : IsName d.name) (kind : Kind) :
    barsAtZero .all 0 none false (d.ruleText kind) =
      barsAtZero .all 0 none false (d.body ++ [';']) := by
  obtain ⟨head, htext, hhead⟩ := exists_ruleText_eq h kind
  have hmarks : countedChars.all fun c => !isIdentChar c && c ≠ ' ' && c ≠ ':' := by decide
  have hcounted : ∀ c ∈ head ++ [':'], c ∉ countedChars := by
    intro c hc hmem
    obtain ⟨⟨hident, hspace⟩, hcolon⟩ : (isIdentChar c = false ∧ c ≠ ' ') ∧ c ≠ ':' := by
      simpa using List.all_eq_true.mp hmarks c hmem
    rcases List.mem_append.mp hc with hc | hc
    · rcases hhead c hc with h | h
      · rw [hident] at h
        cases h
      · exact hspace h
    · exact hcolon (List.mem_singleton.mp hc)
  rw [htext, barsAtZero_all_append hcounted]

/-- The alternatives of a rule are one more than the bars at which all its brackets balance. -/
theorem length_splitAlternatives_ruleText {d : Definition} (h : IsName d.name) (kind : Kind) :
    (splitAlternatives (d.ruleText kind)).length =
      ((bars (d.ruleText kind)).countP fun i => Brackets.all.depthAt (d.ruleText kind) i = 0) +
        1 := by
  obtain ⟨piece, hlast, hmem⟩ := semicolon_mem_getLast?_splitBars 0 none false d.body
  have hpiece : trim piece ≠ [] :=
    List.ne_nil_of_mem (mem_trim_of_not_isBlank hmem (by decide))
  have hdepths : barsAtZero .all 0 none false (d.ruleText kind) =
      (bars (d.ruleText kind)).countP fun i => Brackets.all.depthAt (d.ruleText kind) i = 0 := by
    unfold barsAtZero
    simp only [Int.zero_add]
    rfl
  rw [splitAlternatives, body?_ruleText h kind]
  show (trimPieces (splitBars none false 0 (d.body ++ [';']))).length = _
  rw [length_trimPieces hlast hpiece, length_splitBars, ← hdepths, barsAtZero_ruleText h kind]

/-! ## Where the two counts agree -/

/-- What satisfies one of two conditions and not both makes the difference of their counts. -/
theorem countP_eq_countP_iff {α : Type} (p q : α → Bool) (l : List α) :
    l.countP p = l.countP q ↔
      (l.countP fun a => p a && !q a) = l.countP fun a => q a && !p a := by
  have hsplit (p q : α → Bool) : l.countP p = (l.countP fun a => p a && q a) +
      l.countP fun a => p a && !q a := by
    induction l with
    | nil => rfl
    | cons a l ih =>
      simp only [List.countP_cons, ih]
      cases p a <;> cases q a <;> simp <;> omega
  have hboth : (l.countP fun a => p a && q a) = l.countP fun a => q a && p a :=
    List.countP_congr fun a _ => by rw [Bool.and_comm]
  have hp := hsplit p q
  have hq := hsplit q p
  omega

/-- The text of a rule of a report is that of a definition, and the recorded number is its count. -/
theorem exists_ruleText_of_report {source : List Char} {o : Options} {timing : Timing} {rule : Rule}
    (h : rule ∈ (Report.of source o timing).rules) :
    ∃ d kind, IsName d.name ∧ rule.text.toList = Definition.ruleText kind d ∧
      rule.alternativeCount = countAlternatives rule.text.toList := by
  obtain ⟨found, hfound, rfl⟩ := List.mem_map.mp h
  obtain ⟨d, hd, hfind⟩ := exists_definition_of_mem_extractRules hfound
  have hname : IsName d.name :=
    (wellFormed_of_mem_scanFrom (List.mem_of_find?_eq_some hfind)).isName
  have htext : found.text.toList = d.ruleText found.kind := by
    rw [hd]
    exact String.toList_ofList
  have hcount : found.alternativeCount = countAlternatives (d.ruleText found.kind) := by
    rw [hd]
    rfl
  -- the neighbours that the graph gives a rule leave its text and its number as they are
  rw [Graph.attachOne_ofRules hfound]
  refine ⟨d, found.kind, hname, htext, ?_⟩
  rw [← htext] at hcount
  exact hcount

/-- Where no bar is in a square or curly bracket, as many are outside parentheses as outside
brackets of all kinds. -/
theorem countP_depthAt_eq {s : List Char} (h : ∀ i ∈ bars s, Brackets.other.depthAt s i = 0) :
    ((bars s).countP fun i => Brackets.round.depthAt s i = 0) =
      (bars s).countP fun i => Brackets.all.depthAt s i = 0 := by
  refine List.countP_congr fun i hi => ?_
  have hall : Brackets.all.depthAt s i =
      Brackets.round.depthAt s i + Brackets.other.depthAt s i :=
    Brackets.surplus_all_eq none false (s.take i)
  rw [hall, h i hi, Int.add_zero]

/-- **The two counts of alternatives**: the recorded number of a rule is one more than the bars
outside literals at which its parentheses balance, and its alternatives are one more than those at
which its brackets of all kinds do. They are equally many exactly if as many bars have only the
first as have only the second, and so wherever no bar is in a square or curly bracket. -/
theorem alternatives_of_report {source : List Char} {o : Options} {timing : Timing} {rule : Rule}
    (h : rule ∈ (Report.of source o timing).rules) :
    let text := rule.text.toList
    rule.alternativeCount = ((bars text).countP fun i => Brackets.round.depthAt text i = 0) + 1 ∧
    (splitAlternatives text).length =
      ((bars text).countP fun i => Brackets.all.depthAt text i = 0) + 1 ∧
    (rule.alternativeCount = (splitAlternatives text).length ↔
      ((bars text).countP fun i =>
        Brackets.round.depthAt text i = 0 ∧ Brackets.all.depthAt text i ≠ 0) =
      ((bars text).countP fun i =>
        Brackets.all.depthAt text i = 0 ∧ Brackets.round.depthAt text i ≠ 0)) ∧
    ((∀ i ∈ bars text, Brackets.other.depthAt text i = 0) →
      rule.alternativeCount = (splitAlternatives text).length) := by
  intro text
  obtain ⟨d, kind, hname, htext, hrecorded⟩ := exists_ruleText_of_report h
  have hcut := length_splitAlternatives_ruleText hname kind
  rw [← show text = d.ruleText kind from htext] at hcut
  change rule.alternativeCount = countAlternatives text at hrecorded
  rw [countAlternatives_eq] at hrecorded
  have hagree : rule.alternativeCount = (splitAlternatives text).length ↔
      ((bars text).countP fun i => Brackets.round.depthAt text i = 0) =
        (bars text).countP fun i => Brackets.all.depthAt text i = 0 := by
    omega
  refine ⟨hrecorded, hcut, ?_, fun hother => hagree.mpr (countP_depthAt_eq hother)⟩
  rw [hagree, countP_eq_countP_iff]
  simp only [Bool.decide_and, decide_not]

/-- Bars in parentheses and in literals count for neither, and those outside for both. -/
theorem alternatives_of_report_spaced :
    ∃ rule ∈ (Report.of "a : ('|' | b) {f} [c] | 'd' | e ;".toList {} ⟨.nan, .nan⟩).rules,
      rule.alternativeCount = 3 ∧ rule.alternativeCount =
        (splitAlternatives rule.text.toList).length := by
  have hrules : ∃ rule ∈ attachedRules "a : ('|' | b) {f} [c] | 'd' | e ;".toList,
      rule.alternativeCount = 3 ∧
        ∀ i ∈ bars rule.text.toList, Brackets.other.depthAt rule.text.toList i = 0 := by
    decide +kernel
  obtain ⟨rule, hrule, hcount, hother⟩ := hrules
  have hmem : rule ∈
      (Report.of "a : ('|' | b) {f} [c] | 'd' | e ;".toList {} ⟨.nan, .nan⟩).rules := hrule
  exact ⟨rule, hmem, hcount, (alternatives_of_report hmem).2.2.2 hother⟩

/-- The bar of a character set counts as one between alternatives, and cuts none. -/
theorem alternatives_of_set :
    ∃ rule ∈ (Report.of "A : [|] ;".toList {} ⟨.nan, .nan⟩).rules,
      rule.alternativeCount = 2 ∧ (splitAlternatives rule.text.toList).length = 1 := by
  decide +kernel

end GrammarAudit.Grammar
