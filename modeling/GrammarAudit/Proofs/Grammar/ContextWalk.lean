import GrammarAudit.Proofs.Grammar.Scan
import GrammarAudit.Proofs.Grammar.UnitContents
import GrammarAudit.Proofs.Grammar.UnitEnd

/-!
# Units met by a walk through contexts

The search for a terminator and the scan for definitions go through a text character by character
and remember the context. Where a unit begins they do what a walk does that passes over the unit as
a whole: they go on in code with what follows it.

- `FollowsContext`: a function that outside code only follows the context.
- `FollowsContext.afterLiteral`, `FollowsContext.afterCharSet`, `FollowsContext.afterBlock`: it
  leaves each kind of unit where the unit ends.
- `FollowsContext.unit`: the same for a unit that begins in code.
- `step_code_of_not_opensUnit`: the characters that begin none.
- `followsContext_scanFrom`, `followsContext_leftFrom`: the scan and the search.
-/

namespace GrammarAudit.Grammar

/-- A function of a text and the context that it starts in, which only goes on with the next
character unless it stands in code and the character can begin a definition or end a rule. The flag
tells whether an identifier character comes right before the text. -/
structure FollowsContext {β : Type} (f : Context → Bool → List Char → β) : Prop where
  nil : ∀ context flag, f context flag [] = f .code false []
  cons : ∀ context flag c rest, (context = .code → isIdentStart c = false ∧ c ≠ ';') →
    f context flag (c :: rest) = f (context.step c) (isIdentChar c) rest

namespace FollowsContext

variable {β : Type} {f : Context → Bool → List Char → β}

theorem outside (hf : FollowsContext f) {context : Context} (h : context ≠ .code) (flag : Bool)
    (c : Char) (rest : List Char) :
    f context flag (c :: rest) = f (context.step c) (isIdentChar c) rest :=
  hf.cons context flag c rest fun hcode => absurd hcode h

theorem afterLiteral (hf : FollowsContext f) {mark : Char} (hquote : isQuote mark = true)
    (flag : Bool) (s : List Char) :
    f (.literal mark false) flag s = f .code false (Grammar.afterLiteral mark s) := by
  have houtside {escaped : Bool} (flag : Bool) (c : Char) (rest : List Char) :
      f (.literal mark escaped) flag (c :: rest) =
        f ((Context.literal mark escaped).step c) (isIdentChar c) rest :=
    hf.outside (fun h => by cases h) flag c rest
  fun_induction Grammar.afterLiteral mark s generalizing flag with
  | case1 => exact hf.nil _ _
  | case2 => exact (houtside _ _ _).trans (hf.nil _ _)
  | case3 d rest ih => exact (houtside _ _ _).trans ((houtside _ _ _).trans (ih _))
  | case4 rest hlast htakes =>
    have hplain := not_isIdentChar_of_opensUnit (opensUnit_of_isQuote hquote)
    have hslash := not_escape_of hlast htakes
    rw [houtside, Context.step, if_neg hslash, if_pos (.inl rfl), hplain]
  | case5 rest hlast htakes hne =>
    -- the line feed is left to code, where it changes nothing
    have hstep : (Context.literal mark false).step '\n' = .code := by simp [Context.step]
    rw [houtside, hstep]
    exact (hf.cons .code false '\n' rest fun _ => by decide).symm
  | case6 c rest hlast htakes hmark hfeed ih =>
    have hslash := not_escape_of hlast htakes
    rw [houtside, Context.step, if_neg hslash, if_neg (not_or.mpr ⟨hmark, hfeed⟩), ih]

theorem afterCharSet (hf : FollowsContext f) (flag : Bool) (s : List Char) :
    f (.charSet false) flag s = f .code false (Grammar.afterCharSet s) := by
  have houtside {escaped : Bool} (flag : Bool) (c : Char) (rest : List Char) :
      f (.charSet escaped) flag (c :: rest) =
        f ((Context.charSet escaped).step c) (isIdentChar c) rest :=
    hf.outside (fun h => by cases h) flag c rest
  fun_induction Grammar.afterCharSet s generalizing flag with
  | case1 => exact hf.nil _ _
  | case2 => exact (houtside _ _ _).trans (hf.nil _ _)
  | case3 d rest ih => exact (houtside _ _ _).trans ((houtside _ _ _).trans (ih _))
  | case4 rest => exact houtside _ _ _
  | case5 c rest hlast htakes hclose ih =>
    have hslash := not_escape_of hlast htakes
    rw [houtside, Context.step, if_neg hslash, if_neg hclose, ih]

theorem afterBlock (hf : FollowsContext f) (outer : Nat) (flag : Bool) (s : List Char) :
    f (.block outer) flag s = f .code false (Grammar.afterBlock (outer + 1) s) := by
  have houtside (outer : Nat) (flag : Bool) (c : Char) (rest : List Char) :
      f (.block outer) flag (c :: rest) = f ((Context.block outer).step c) (isIdentChar c) rest :=
    hf.outside (fun h => by cases h) flag c rest
  induction s generalizing outer flag with
  | nil => exact hf.nil _ _
  | cons c rest ih =>
    rw [houtside, Grammar.afterBlock]
    by_cases hopen : c = '{'
    · subst hopen
      exact ih (outer + 1) _
    by_cases hclose : c = '}'
    · subst hclose
      cases outer with
      | zero => rfl
      | succ outer =>
        have hne : ((outer + 1 : Nat) : Int) + 1 ≠ 1 := by omega
        rw [if_neg hopen, if_pos rfl, if_neg hne, Int.add_sub_cancel]
        exact ih outer _
    · have hstep : (Context.block outer).step c = .block outer := by
        simp [Context.step, hopen, hclose]
      rw [hstep, if_neg hopen, if_neg hclose]
      exact ih outer _

/-- A unit that begins in code is passed over. -/
theorem unit (hf : FollowsContext f) {c : Char} {rest tail : List Char} (flag : Bool)
    (hopens : opensUnit c = true) (h : enclosure? true (c :: rest) = some tail) :
    f .code flag (c :: rest) = f .code false tail := by
  have hplain : isIdentStart c = false ∧ c ≠ ';' := by
    constructor
    · refine Bool.eq_false_iff.mpr fun hstart => ?_
      have hident := not_isIdentChar_of_opensUnit hopens
      rw [isIdentChar_of_isIdentStart hstart] at hident
      cases hident
    · rintro rfl
      exact absurd hopens (by decide)
  rw [hf.cons .code flag c rest fun _ => hplain, Context.step]
  rw [enclosure?] at h
  split
  · next hquote =>
    rw [if_pos hquote] at h
    rw [← Option.some.inj h]
    exact hf.afterLiteral hquote _ rest
  · next hquote =>
    rw [if_neg hquote] at h
    split
    · next hset =>
      rw [if_pos hset] at h
      rw [← Option.some.inj h]
      exact hf.afterCharSet _ rest
    · next hset =>
      obtain rfl : c = '{' := by simpa [opensUnit, hquote, hset] using hopens
      rw [if_neg hset, if_pos rfl] at h
      rw [if_pos rfl, ← Option.some.inj h]
      exact hf.afterBlock 0 _ rest

end FollowsContext

/-- Any other character leaves code in code. -/
theorem step_code_of_not_opensUnit {c : Char} (h : ¬opensUnit c = true) :
    Context.code.step c = .code := by
  simp only [opensUnit, Bool.or_eq_true, decide_eq_true_eq, not_or] at h
  rw [Context.step, if_neg h.1.1, if_neg h.1.2, if_neg h.2]

/-! ## The scan and the search -/

theorem followsContext_scanFrom : FollowsContext scanFrom where
  nil context flag := by rw [scanFrom, scanFrom]
  cons context flag c rest h := by
    rw [scanFrom, if_neg]
    rintro ⟨hcode, hstart, -⟩
    rw [(h hcode).1] at hstart
    cases hstart

/-- How many characters are left from the first terminator on. -/
def leftFrom (context : Context) (s : List Char) : Nat :=
  match splitTerminator context s with
  | some found => found.2.length + 1
  | none => 0

theorem leftFrom_cons {context : Context} {c : Char} (h : ¬(context = .code ∧ c = ';'))
    (rest : List Char) : leftFrom context (c :: rest) = leftFrom (context.step c) rest := by
  rw [leftFrom, splitTerminator, if_neg h, leftFrom]
  cases splitTerminator (context.step c) rest <;> rfl

theorem leftFrom_semicolon (rest : List Char) : leftFrom .code (';' :: rest) = rest.length + 1 := by
  rw [leftFrom, splitTerminator, if_pos ⟨rfl, rfl⟩]

theorem followsContext_leftFrom : FollowsContext fun context _ s => leftFrom context s where
  nil _ _ := rfl
  cons _ _ _ rest h := leftFrom_cons (fun hcode => (h hcode.1).2 hcode.2) rest

/-- The search ends where as many characters are left. -/
theorem ruleEnd_eq_sub {s : List Char} {pos : Nat} (h : pos ≤ s.length) :
    ruleEnd s pos = s.length - leftFrom .code (s.drop pos) := by
  unfold ruleEnd leftFrom
  cases hsplit : splitTerminator .code (s.drop pos) with
  | none => rfl
  | some found =>
    have hdrop := congrArg List.length (splitTerminator_code_iff.mp hsplit).2
    rw [List.length_drop, List.length_append, List.length_cons] at hdrop
    show pos + found.1.length = s.length - (found.2.length + 1)
    omega

end GrammarAudit.Grammar
