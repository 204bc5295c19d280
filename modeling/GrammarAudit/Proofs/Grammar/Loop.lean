import GrammarAudit.Proofs.Grammar.ContextWalk
import GrammarAudit.Proofs.Grammar.Printing

/-!
# Loops over the positions of a text

The search for a terminator, the scan for definitions and the blanking of enclosures can each be run
as a loop over positions, which jumps over a unit to the position behind it. Every turn of such a
loop reads the text in range and goes on at a later position that is not behind the end, so the loop
ends after at most as many turns as characters are left. Its result is that of the walk character by
character.

- `Turn`, `EndsWithin`: one turn of a loop, and a loop that ends within a number of turns.
- `Progresses`, `endsWithin_of_progresses`: turns that move on and keep the result.
- `terminatorTurn`, `definitionTurn`, `blankTurn`: the turns of the three loops.
- `ruleEnd_append`: behind a closed text the search starts afresh.
- `loops_end_and_compose`: progress, ends and results for any text.
-/

namespace GrammarAudit.Grammar

open Text

/-! ## Loops -/

/-- What one turn of a loop comes to: it goes on in another state or ends with a result. -/
inductive Turn (σ ρ : Type) where
  | goesOn (state : σ)
  | ends (result : ρ)

/-- A loop ends with a result within a number of turns that go on. A turn that reads out of range is
none, and a loop that comes to it does not end. -/
inductive EndsWithin {σ ρ : Type} (turn : σ → Option (Turn σ ρ)) : Nat → σ → ρ → Prop
  | ends {n : Nat} {state : σ} {result : ρ} (h : turn state = some (.ends result)) :
      EndsWithin turn n state result
  | goesOn {n : Nat} {state next : σ} {result : ρ} (h : turn state = some (.goesOn next))
      (rest : EndsWithin turn n next result) : EndsWithin turn (n + 1) state result

/-- Every turn of a loop over the positions of a text ends with the result that belongs to the
state, or goes on at a later position of the text in a state with the same result. -/
def Progresses {σ ρ : Type} (s : List Char) (turn : σ → Option (Turn σ ρ)) (position : σ → Nat)
    (result : σ → ρ) : Prop :=
  ∀ state, turn state = some (.ends (result state)) ∨
    ∃ next, turn state = some (.goesOn next) ∧ Advances s (position state) (position next) ∧
      result next = result state

/-- A loop that progresses ends within as many turns as characters are left. -/
theorem endsWithin_of_progresses {σ ρ : Type} {s : List Char} {turn : σ → Option (Turn σ ρ)}
    {position : σ → Nat} {result : σ → ρ} (h : Progresses s turn position result) (state : σ) :
    EndsWithin turn (s.length - position state) state (result state) := by
  -- on a bound for the characters that are left, which every turn lowers
  suffices hbound : ∀ n state, s.length - position state ≤ n →
      EndsWithin turn n state (result state) from hbound _ state (Nat.le_refl _)
  intro n
  induction n with
  | zero =>
    intro state hleft
    rcases h state with hends | ⟨next, -, hadvances, -⟩
    · exact .ends hends
    · have hforward := hadvances.forward
      have hinside := hadvances.inside
      omega
  | succ n ih =>
    intro state hleft
    rcases h state with hends | ⟨next, hgoes, hadvances, hresult⟩
    · exact .ends hends
    · have hforward := hadvances.forward
      have hinside := hadvances.inside
      exact .goesOn hgoes (hresult ▸ ih next (by omega))

/-- How far a loop has come: a position, and what has been put out before it. -/
structure Reached (α : Type) where
  pos : Nat
  out : List α

variable {s rest tail : List Char} {pos : Nat} {c : Char}

/-- A position is in range and holds a character, or it is at or behind the end. -/
theorem drop_cases (s : List Char) (pos : Nat) :
    (pos < s.length ∧ ∃ c rest, s[pos]? = some c ∧ s.drop pos = c :: rest) ∨
      (¬pos < s.length ∧ s.drop pos = []) := by
  by_cases h : pos < s.length
  · have hget : s[pos]? = some s[pos] := List.getElem?_eq_getElem h
    exact .inl ⟨h, s[pos], _, hget, drop_of_getElem? hget⟩
  · exact .inr ⟨h, List.drop_eq_nil_of_le (Nat.le_of_not_lt h)⟩

/-- A position one character further on. -/
theorem advances_succ (h : pos < s.length) : Advances s pos (pos + 1) :=
  ⟨Nat.lt_succ_self pos, h⟩

/-- Where a unit begins, the position behind it is later, and what follows the enclosure begins
there. -/
theorem exists_unitEnd (h : s.drop pos = c :: rest) (hopens : opensUnit c = true) :
    ∃ stop, unitEnd? s pos = some stop ∧ Advances s pos stop ∧
      enclosure? true (c :: rest) = some (s.drop stop) := by
  obtain ⟨tail, htail, hstop⟩ := unitEnd?_eq_some h hopens
  obtain ⟨hadvances, hdrop⟩ := advances_of_suffix h (enclosure?_consuming true c rest tail htail)
  exact ⟨_, hstop, hadvances, by rw [hdrop, htail]⟩

/-! ## The search for a terminator -/

/-- One turn of the search for a terminator. -/
def terminatorTurn (s : List Char) (pos : Nat) : Option (Turn Nat Nat) :=
  if pos < s.length then do
    let c ← s[pos]?
    if opensUnit c then
      let stop ← unitEnd? s pos
      return .goesOn stop
    else if c = ';' then return .ends pos
    else return .goesOn (pos + 1)
  else some (.ends s.length)

theorem progresses_terminatorTurn (s : List Char) :
    Progresses s (terminatorTurn s) id (ruleEnd s) := by
  intro pos
  rcases drop_cases s pos with ⟨hlt, c, rest, hget, hdrop⟩ | ⟨hnot, hdrop⟩
  · have hresult {next : Nat} (hadvances : Advances s pos next)
        (hleft : leftFrom .code (s.drop next) = leftFrom .code (s.drop pos)) :
        ruleEnd s next = ruleEnd s pos := by
      rw [ruleEnd_eq_sub hadvances.inside, ruleEnd_eq_sub (Nat.le_of_lt hlt), hleft]
    rw [terminatorTurn, if_pos hlt, hget, Option.bind_eq_bind, Option.bind_some]
    by_cases hopens : opensUnit c = true
    · obtain ⟨stop, hstop, hadvances, htail⟩ := exists_unitEnd hdrop hopens
      refine .inr ⟨stop, by rw [if_pos hopens, hstop]; rfl, hadvances, hresult hadvances ?_⟩
      rw [hdrop]
      exact (followsContext_leftFrom.unit false hopens htail).symm
    by_cases hstop : c = ';'
    · subst hstop
      have hend : ruleEnd s pos = pos := by
        have hlength := congrArg List.length hdrop
        rw [List.length_drop, List.length_cons] at hlength
        rw [ruleEnd_eq_sub (Nat.le_of_lt hlt), hdrop, leftFrom_semicolon]
        omega
      exact .inl (by rw [if_neg hopens, if_pos rfl, hend]; rfl)
    · have hadvances := advances_succ hlt
      refine .inr ⟨pos + 1, by rw [if_neg hopens, if_neg hstop]; rfl, hadvances,
        hresult hadvances ?_⟩
      rw [drop_succ_of_drop hdrop, hdrop, leftFrom_cons (fun h => hstop h.2),
        step_code_of_not_opensUnit hopens]
  · have hend : ruleEnd s pos = s.length := by
      rw [ruleEnd, hdrop]
      rfl
    exact .inl (by rw [terminatorTurn, if_neg hnot, hend])

/-! ## The scan for definitions -/

/-- Whether an identifier character comes right before a position. -/
def afterIdent? (s : List Char) (pos : Nat) : Option Bool :=
  if pos = 0 then some false else s[pos - 1]?.map isIdentChar

/-- One turn of the scan for definitions. Where an identifier begins in code, it reads a definition
or passes over the identifier. -/
def definitionTurn (s : List Char) (state : Reached Definition) :
    Option (Turn (Reached Definition) (List Definition)) :=
  if state.pos < s.length then do
    let c ← s[state.pos]?
    let afterIdent ← afterIdent? s state.pos
    if opensUnit c then
      let stop ← unitEnd? s state.pos
      return .goesOn ⟨stop, state.out⟩
    else if isIdentStart c && !afterIdent then
      match readDefinition? (s.drop state.pos) with
      | some found => return .goesOn ⟨s.length - found.2.length, state.out ++ [found.1]⟩
      | none => return .goesOn ⟨identifierEnd s state.pos, state.out⟩
    else return .goesOn ⟨state.pos + 1, state.out⟩
  else some (.ends state.out)

/-- What comes right before a position is the last character of what was passed over. -/
theorem afterIdent?_of_drop {part : List Char} {d : Char} {stop : Nat}
    (h : s.drop pos = part ++ d :: s.drop stop) (hinside : stop ≤ s.length) :
    afterIdent? s stop = some (isIdentChar d) := by
  have hlength := congrArg List.length h
  rw [List.length_drop, List.length_append, List.length_cons, List.length_drop] at hlength
  have hstop : stop = pos + part.length + 1 := by omega
  have hget : s[pos + part.length]? = some d := by
    rw [← List.getElem?_drop, h, List.getElem?_append_right (Nat.le_refl _), Nat.sub_self]
    rfl
  subst hstop
  rw [afterIdent?, if_neg (Nat.succ_ne_zero _), Nat.add_sub_cancel, hget, Option.map_some]

theorem afterIdent?_of_le (h : pos ≤ s.length) :
    afterIdent? s pos = some ((afterIdent? s pos).getD false) := by
  cases pos with
  | zero => rfl
  | succ pos =>
    rw [afterIdent?, if_neg (Nat.succ_ne_zero _), Nat.add_sub_cancel,
      List.getElem?_eq_getElem (Nat.lt_of_succ_le h)]
    rfl

/-- The definitions found from a position on. -/
def definitionsFrom (s : List Char) (pos : Nat) : List Definition :=
  scanFrom .code ((afterIdent? s pos).getD false) (s.drop pos)

/-- A closed unit ends with a mark, which is no identifier character. -/
theorem ClosedUnit.exists_concat {v : List Char} (h : ClosedUnit v) :
    ∃ part last, v = part ++ [last] ∧ isIdentChar last = false := by
  cases h with
  | @literal mark s hmark content =>
    exact ⟨mark :: s, mark, rfl, not_isIdentChar_of_opensUnit (opensUnit_of_isQuote hmark)⟩
  | @charSet s content => exact ⟨'[' :: s, ']', rfl, by decide⟩
  | @block s inner => exact ⟨'{' :: s, '}', rfl, by decide⟩
  | @comment s hends => exact ⟨'/' :: '*' :: (s ++ ['*']), '/', by simp, by decide⟩

/-- Behind a unit it does not matter what comes before. -/
theorem definitionsFrom_of_unit {stop : Nat} (h : s.drop pos = c :: rest)
    (htail : enclosure? true (c :: rest) = some (s.drop stop)) (hinside : stop ≤ s.length) :
    definitionsFrom s stop = scanFrom .code false (s.drop stop) := by
  rw [definitionsFrom]
  rcases hdrop : s.drop stop with - | ⟨d, tail⟩
  · rw [scanFrom, scanFrom]
  · rw [hdrop] at htail
    by_cases hfeed : d = '\n'
    · subst hfeed
      rw [followsContext_scanFrom.cons _ _ _ _ fun _ => by decide,
        followsContext_scanFrom.cons .code false _ _ fun _ => by decide]
    · obtain ⟨v, hv, hsplit⟩ := closedUnit_of_enclosure? htail hfeed
      obtain ⟨part, last, rfl, hlast⟩ := hv.exists_concat
      have hpart : s.drop pos = part ++ last :: s.drop stop := by rw [h, hsplit, hdrop]; simp
      have hbefore := afterIdent?_of_drop hpart hinside
      rw [hlast] at hbefore
      rw [hbefore]
      rfl

/-- Within an identifier nothing is found. -/
theorem scanFrom_of_run {run : List Char} (h : ∀ c ∈ run, isIdentChar c = true) (t : List Char) :
    scanFrom .code true (run ++ t) = scanFrom .code true t := by
  induction run with
  | nil => rfl
  | cons c run ih =>
    have hc := h c List.mem_cons_self
    rw [List.cons_append, scanFrom, if_neg (by simp), (isPlain_of_isIdentChar hc).1, hc]
    exact ih fun d hd => h d (List.mem_cons_of_mem _ hd)

/-- An identifier at which no definition can be read is passed over. -/
theorem definitionsFrom_identifierEnd (h : s.drop pos = c :: rest) (hstart : isIdentStart c = true)
    (hread : readDefinition? (c :: rest) = none) :
    definitionsFrom s (identifierEnd s pos) = scanFrom .code false (c :: rest) := by
  have hc := isIdentChar_of_isIdentStart hstart
  obtain ⟨run, t, hrun, ht⟩ : ∃ run t, rest.takeWhile isIdentChar = run ∧ rest = run ++ t :=
    ⟨_, rest.dropWhile isIdentChar, rfl, List.takeWhile_append_dropWhile.symm⟩
  have hident : ∀ d ∈ c :: run, isIdentChar d = true := by
    rw [← hrun, ← List.takeWhile_cons_of_pos hc]
    exact List.all_eq_true.mp List.all_takeWhile
  have hend : identifierEnd s pos = pos + (c :: run).length := by
    rw [identifierEnd, h, List.takeWhile_cons_of_pos hc, hrun, List.length_cons]
    omega
  have hdrop : s.drop (identifierEnd s pos) = t := by
    rw [hend, ← List.drop_drop, h, ht, ← List.cons_append, List.drop_left]
  -- what comes before the rest is the last character of the identifier
  obtain ⟨part, last, hlast⟩ : ∃ part last, c :: run = part ++ [last] :=
    ⟨_, _, (List.dropLast_concat_getLast (List.cons_ne_nil c run)).symm⟩
  have hpart : s.drop pos = part ++ last :: s.drop (identifierEnd s pos) := by
    rw [h, hdrop, ht, ← List.cons_append, hlast, List.append_assoc]
    rfl
  have hlt : pos < s.length := (List.getElem?_eq_some_iff.mp (getElem?_of_drop_eq_cons h)).1
  have hbefore := afterIdent?_of_drop hpart (advances_identifierEnd hlt).inside
  rw [hident last (by rw [hlast]; simp)] at hbefore
  rw [definitionsFrom, hbefore, hdrop, Option.getD_some]
  -- within the identifier the scan finds nothing either
  have hskip : scanFrom .code false (c :: rest) = scanFrom .code true rest := by
    rw [scanFrom, if_pos ⟨rfl, hstart, rfl⟩]
    split
    · next hsome =>
      rw [hread] at hsome
      cases hsome
    · rw [(isPlain_of_isIdentChar hc).1, hc]
  rw [hskip, ht, scanFrom_of_run fun d hd => hident d (List.mem_cons_of_mem c hd)]

/-- Where a definition is read, the position behind it is later, and the scan goes on there. -/
theorem definitionsFrom_of_readDefinition? {d : Definition} (h : s.drop pos = c :: rest)
    (hread : readDefinition? (c :: rest) = some (d, tail)) :
    Advances s pos (s.length - tail.length) ∧
      d :: definitionsFrom s (s.length - tail.length) = scanFrom .code false (c :: rest) := by
  obtain ⟨head, -, -, -, hsplit⟩ := readDefinition?_eq_some_iff.mp hread
  have htail : tail <:+ rest := by
    have hsuffix : tail <:+ c :: rest := ⟨head ++ d.body ++ [';'], by rw [hsplit]; simp⟩
    rcases List.suffix_cons_iff.mp hsuffix with heq | hsuffix
    · have hlt := length_of_readDefinition? hread
      rw [heq] at hlt
      exact absurd hlt (Nat.lt_irrefl _)
    · exact hsuffix
  obtain ⟨hadvances, hdrop⟩ := advances_of_suffix h htail
  have hpart : s.drop pos = (head ++ d.body) ++ ';' :: s.drop (s.length - tail.length) := by
    rw [h, hdrop, hsplit, List.append_assoc]
  have hbefore := afterIdent?_of_drop hpart hadvances.inside
  refine ⟨hadvances, ?_⟩
  rw [definitionsFrom, hbefore, hdrop, scanFrom_of_readDefinition? hread]
  rfl

theorem scanFrom_of_not_begins {flag : Bool} (h : ¬(isIdentStart c && !flag) = true) :
    scanFrom .code flag (c :: rest) = scanFrom (Context.code.step c) (isIdentChar c) rest := by
  rw [scanFrom, if_neg]
  rintro ⟨-, hbegins⟩
  exact h (by simpa using hbegins)

theorem progresses_definitionTurn (s : List Char) :
    Progresses s (definitionTurn s) Reached.pos fun state =>
      state.out ++ definitionsFrom s state.pos := by
  rintro ⟨pos, out⟩
  dsimp only
  rcases drop_cases s pos with ⟨hlt, c, rest, hget, hdrop⟩ | ⟨hnot, hdrop⟩
  · obtain ⟨flag, hflag⟩ : ∃ flag, afterIdent? s pos = some flag :=
      ⟨_, afterIdent?_of_le (Nat.le_of_lt hlt)⟩
    have hfrom : definitionsFrom s pos = scanFrom .code flag (c :: rest) := by
      rw [definitionsFrom, hflag, hdrop, Option.getD_some]
    rw [definitionTurn, if_pos hlt, hget, hflag]
    simp only [Option.bind_eq_bind, Option.bind_some, hfrom]
    by_cases hopens : opensUnit c = true
    · obtain ⟨stop, hstop, hadvances, htail⟩ := exists_unitEnd hdrop hopens
      refine .inr ⟨⟨stop, out⟩, by rw [if_pos hopens, hstop]; rfl, hadvances, ?_⟩
      show out ++ definitionsFrom s stop = _
      rw [definitionsFrom_of_unit hdrop htail hadvances.inside,
        followsContext_scanFrom.unit flag hopens htail]
    rw [if_neg hopens]
    by_cases hbegins : (isIdentStart c && !flag) = true
    · obtain ⟨hstart, hflag'⟩ := Bool.and_eq_true_iff.mp hbegins
      obtain rfl : flag = false := by simpa using hflag'
      rw [if_pos hbegins, hdrop]
      cases hread : readDefinition? (c :: rest) with
      | some found =>
        obtain ⟨d, tail⟩ := found
        obtain ⟨hadvances, hfound⟩ := definitionsFrom_of_readDefinition? hdrop hread
        refine .inr ⟨⟨s.length - tail.length, out ++ [d]⟩, rfl, hadvances, ?_⟩
        show out ++ [d] ++ definitionsFrom s (s.length - tail.length) = _
        rw [List.append_assoc, List.singleton_append, hfound]
      | none =>
        refine .inr ⟨⟨identifierEnd s pos, out⟩, rfl, advances_identifierEnd hlt, ?_⟩
        show out ++ definitionsFrom s (identifierEnd s pos) = _
        rw [definitionsFrom_identifierEnd hdrop hstart hread]
    · have hadvances := advances_succ hlt
      refine .inr ⟨⟨pos + 1, out⟩, by rw [if_neg hbegins]; rfl, hadvances, ?_⟩
      have hbefore : afterIdent? s (pos + 1) = some (isIdentChar c) := by
        rw [afterIdent?, if_neg (Nat.succ_ne_zero _), Nat.add_sub_cancel, hget, Option.map_some]
      show out ++ definitionsFrom s (pos + 1) = _
      rw [definitionsFrom, hbefore, drop_succ_of_drop hdrop, scanFrom_of_not_begins hbegins,
        step_code_of_not_opensUnit hopens, Option.getD_some]
  · have hnone : definitionsFrom s pos = [] := by rw [definitionsFrom, hdrop, scanFrom]
    exact .inl (by rw [definitionTurn, if_neg hnot, hnone, List.append_nil])

/-! ## The blanking of enclosures -/

/-- The position behind the comment that begins at a position. -/
def commentEnd? (s : List Char) (pos : Nat) : Option Nat :=
  match s.drop pos with
  | '/' :: '/' :: rest => some (s.length - (rest.dropWhile (· != '\n')).length)
  | '/' :: '*' :: rest => some (s.length - ((afterFirst? ['*', '/'] rest).getD []).length)
  | _ => none

/-- One turn of the blanking of literals, character sets, action blocks and comments. -/
def blankTurn (s : List Char) (state : Reached Char) :
    Option (Turn (Reached Char) (List Char)) :=
  if state.pos < s.length then do
    let c ← s[state.pos]?
    if opensUnit c then
      let stop ← unitEnd? s state.pos
      return .goesOn ⟨stop, state.out ++ [' ']⟩
    else
      match commentEnd? s state.pos with
      | some stop => return .goesOn ⟨stop, state.out ++ [' ']⟩
      | none => return .goesOn ⟨state.pos + 1, state.out ++ [c]⟩
  else some (.ends state.out)

/-- Where no other unit begins, an enclosure is a comment. -/
theorem commentEnd?_eq (h : s.drop pos = c :: rest) (hopens : ¬opensUnit c = true) :
    commentEnd? s pos =
      (enclosure? true (c :: rest)).map fun tail => s.length - tail.length := by
  simp only [opensUnit, Bool.or_eq_true, decide_eq_true_eq, not_or] at hopens
  obtain ⟨⟨hquote, hset⟩, hblock⟩ := hopens
  rw [commentEnd?, h, enclosure?, if_neg hquote, if_neg hset, if_neg hblock]
  split
  · next hline =>
    obtain ⟨rfl, rfl⟩ := List.cons.inj hline
    rfl
  · next hcomment =>
    obtain ⟨rfl, rfl⟩ := List.cons.inj hcomment
    rfl
  · next hline hcomment =>
    rw [if_neg, if_neg]
    · rfl
    · rintro ⟨rfl, hnext⟩
      obtain ⟨body, rfl⟩ := List.head?_eq_some_iff.mp hnext
      exact hcomment body rfl
    · rintro ⟨rfl, hnext⟩
      obtain ⟨line, rfl⟩ := List.head?_eq_some_iff.mp hnext
      exact hline line rfl

theorem progresses_blankTurn (s : List Char) :
    Progresses s (blankTurn s) Reached.pos fun state =>
      state.out ++ blankMatches (s.drop state.pos) enclosure? := by
  rintro ⟨pos, out⟩
  dsimp only
  rcases drop_cases s pos with ⟨hlt, c, rest, hget, hdrop⟩ | ⟨hnot, hdrop⟩
  · rw [blankTurn, if_pos hlt, hget, hdrop]
    simp only [Option.bind_eq_bind, Option.bind_some]
    -- an enclosure is left at the same position, whichever skipper goes over it
    have henclosure {stop : Nat} (htail : enclosure? true (c :: rest) = some (s.drop stop)) :
        out ++ [' '] ++ blankMatches (s.drop stop) enclosure? =
          out ++ blankMatches (c :: rest) enclosure? := by
      obtain ⟨t, ht⟩ := enclosure?_consuming true c rest _ htail
      rw [← ht] at htail ⊢
      rw [blankMatches, blankMatches, replaceMatches_of_some htail,
        replaceMatches_congr enclosure?_congr _ false true, List.append_assoc]
    by_cases hopens : opensUnit c = true
    · obtain ⟨stop, hstop, hadvances, htail⟩ := exists_unitEnd hdrop hopens
      exact .inr ⟨⟨stop, out ++ [' ']⟩, by rw [if_pos hopens, hstop]; rfl, hadvances,
        henclosure htail⟩
    rw [if_neg hopens, commentEnd?_eq hdrop hopens]
    cases htail : enclosure? true (c :: rest) with
    | some tail =>
      obtain ⟨hadvances, hstop⟩ :=
        advances_of_suffix hdrop (enclosure?_consuming true c rest tail htail)
      exact .inr ⟨⟨s.length - tail.length, out ++ [' ']⟩, rfl, hadvances,
        henclosure (htail.trans (by rw [hstop]))⟩
    | none =>
      refine .inr ⟨⟨pos + 1, out ++ [c]⟩, rfl, advances_succ hlt, ?_⟩
      show out ++ [c] ++ blankMatches (s.drop (pos + 1)) enclosure? = _
      rw [drop_succ_of_drop hdrop, blankMatches, blankMatches, replaceMatches_of_none htail,
        replaceMatches_congr enclosure?_congr _ (c = '\n') true, List.append_assoc]
      rfl
  · have hnone : blankMatches [] enclosure? = [] := by rw [blankMatches, replaceMatches]
    exact .inl (by rw [blankTurn, if_neg hnot, hdrop, hnone, List.append_nil])

/-! ## Ends and results -/

/-- Behind a closed text the search starts afresh. -/
theorem ruleEnd_append {u : List Char} (hu : Closed u) (t : List Char) :
    ruleEnd (u ++ t) 0 = u.length + ruleEnd t 0 := by
  rw [ruleEnd, ruleEnd, List.drop_zero, List.drop_zero, splitTerminator_append hu.1, hu.2]
  cases splitTerminator .code t with
  | none => exact List.length_append
  | some found =>
    show 0 + (u ++ found.1).length = u.length + (0 + found.1.length)
    rw [List.length_append, Nat.zero_add, Nat.zero_add]

/-- The search ends with the text or at a semicolon. -/
theorem ruleEnd_eq_length_or (s : List Char) (pos : Nat) :
    ruleEnd s pos = s.length ∨ s[ruleEnd s pos]? = some ';' := by
  rw [ruleEnd]
  cases hsplit : splitTerminator .code (s.drop pos) with
  | none => exact .inl rfl
  | some found =>
    refine .inr ?_
    show s[pos + found.1.length]? = some ';'
    rw [← List.getElem?_drop, (splitTerminator_code_iff.mp hsplit).2,
      List.getElem?_append_right (Nat.le_refl _), Nat.sub_self]
    rfl

/-- **Every loop ends, and the search composes.** From any position in range the end of an
identifier, of a literal, of a character set or of an action block is a later position of the text
or its end. So the search for a terminator from any position, the scan for definitions and the
blanking of enclosures end without reading out of range, after at most as many turns as characters
are left, and with the results of the walks character by character. The search ends with the text
or at a semicolon, and behind any text that a semicolon put after it would end, it ends where it
ends in the rest alone. -/
theorem loops_end_and_compose (s : List Char) :
    (∀ pos < s.length, Advances s pos (identifierEnd s pos)) ∧
    (∀ pos mark, s[pos]? = some mark → isQuote mark = true →
      ∃ stop, literalEnd? s pos = some stop ∧ Advances s pos stop) ∧
    (∀ pos, s[pos]? = some '[' → Advances s pos (charSetEnd s pos)) ∧
    (∀ pos, s[pos]? = some '{' → Advances s pos (blockEnd s pos)) ∧
    (∀ pos, EndsWithin (terminatorTurn s) (s.length - pos) pos (ruleEnd s pos)) ∧
    EndsWithin (definitionTurn s) s.length ⟨0, []⟩ (scanDefinitions s) ∧
    EndsWithin (blankTurn s) s.length ⟨0, []⟩ (blankMatches s enclosure?) ∧
    (∀ pos, ruleEnd s pos = s.length ∨ s[ruleEnd s pos]? = some ';') ∧
    ∀ u, ruleEnd (u ++ [';']) 0 = u.length → ruleEnd (u ++ s) 0 = u.length + ruleEnd s 0 := by
  refine ⟨?identifier, ?literal, ?charSet, ?block, ?search, ?scan, ?blank, ?stop, ?compose⟩
  case identifier => exact fun pos hlt => advances_identifierEnd hlt
  case literal => exact fun pos mark hmark _ => advances_literalEnd? hmark
  case charSet => exact fun pos hset => advances_charSetEnd hset
  case block => exact fun pos hblock => advances_blockEnd hblock
  case search => exact fun pos => endsWithin_of_progresses (progresses_terminatorTurn s) pos
  case scan => exact endsWithin_of_progresses (progresses_definitionTurn s) ⟨0, []⟩
  case blank => exact endsWithin_of_progresses (progresses_blankTurn s) ⟨0, []⟩
  case stop => exact ruleEnd_eq_length_or s
  case compose => exact fun u hu => ruleEnd_append (ruleEnd_eq_length_iff.mp hu) s

/-- The semicolons of a literal, a set and a block are passed over, and so is a literal that is not
closed up to the end of its line. -/
theorem loops_end_and_compose_units :
    let u := "x ';' [;] \x7b;\x7d 'y;\n".toList
    let s := " z ; w".toList
    EndsWithin (terminatorTurn s) 6 0 3 ∧ ruleEnd (u ++ [';']) 0 = u.length ∧
      ruleEnd (u ++ s) 0 = u.length + 3 := by
  intro u s
  obtain ⟨-, -, -, -, hsearch, -, -, -, hcompose⟩ := loops_end_and_compose s
  have hu : ruleEnd (u ++ [';']) 0 = u.length := by decide +kernel
  have hs : ruleEnd s 0 = 3 := by decide +kernel
  refine ⟨?_, hu, ?_⟩
  · have hends := hsearch 0
    rw [hs] at hends
    exact hends
  · rw [hcompose u hu, hs]

end GrammarAudit.Grammar
