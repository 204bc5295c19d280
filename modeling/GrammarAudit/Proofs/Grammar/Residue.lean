import GrammarAudit.Grammar.Reference
import GrammarAudit.Proofs.Grammar.Comment
import GrammarAudit.Proofs.Text.Stretch

/-!
# What the loose reading leaves of a body

`references` drops quoted spans, comments and action blocks one kind after the other. On a text that
is put together from parts the first and the last of these passes work part by part, as long as the
quotes of each part pair up and each part closes as many braces as it opens.

- `unquoted`: a text without its quoted spans.
- `Paired`, `unquoted_append`: a part whose quotes pair up.
- `outsideBlocks_append`: a part moves the brace depth by its opening and closing braces.
- `withoutComments_eq_self`: a text without a comment mark passes the comments unchanged.
-/

namespace GrammarAudit.Grammar

open Text

/-! ## Quoted spans -/

/-- A text without its quoted spans. -/
def unquoted (s : List Char) : List Char :=
  eraseMatches quotedSpan? s

/-- The quote that is open after a character, given the one before it. -/
def stepQuote : Option Char → Char → Option Char
  | none, c => if isQuote c then some c else none
  | some mark, c => if c = mark then none else some mark

/-- The quotes of a text pair up: every span that is opened is closed. -/
def Paired (s : List Char) : Prop :=
  s.foldl stepQuote none = none

instance (s : List Char) : Decidable (Paired s) :=
  inferInstanceAs (Decidable (s.foldl stepQuote none = none))

@[simp] theorem unquoted_nil : unquoted [] = [] := by
  rw [unquoted, eraseMatches, replaceMatches]

theorem replaceMatches_quotedSpan? (lineStart : Bool) (s : List Char) :
    replaceMatches [] quotedSpan? lineStart s = unquoted s :=
  replaceMatches_congr (fun _ _ _ => rfl) [] lineStart true s

/-- A character that is no quote stays. -/
theorem unquoted_cons {c : Char} (hc : isQuote c = false) (s : List Char) :
    unquoted (c :: s) = c :: unquoted s := by
  have hnone : quotedSpan? true (c :: s) = none := if_neg (Bool.eq_false_iff.mp hc)
  rw [unquoted, eraseMatches, replaceMatches, hnone]
  simp only
  rw [replaceMatches_quotedSpan?]

/-- A span up to the next quote of its kind goes. -/
theorem unquoted_span {mark : Char} (hmark : isQuote mark = true) {s : List Char} (hs : mark ∉ s)
    (t : List Char) : unquoted (mark :: (s ++ mark :: t)) = unquoted t := by
  have hsome : quotedSpan? true (mark :: (s ++ mark :: t)) = some t :=
    (if_pos hmark).trans (afterFirst?_of_not_mem hs)
  have hle : t.length ≤ (s ++ mark :: t).length := by
    rw [List.length_append, List.length_cons]
    omega
  rw [unquoted, eraseMatches, replaceMatches, hsome]
  simp only [if_pos hle]
  rw [List.nil_append, replaceMatches_quotedSpan?]

/-- An open span is closed by the next quote of its kind. -/
theorem exists_closing_quote {mark : Char} {s : List Char}
    (h : s.foldl stepQuote (some mark) = none) :
    ∃ x y, s = x ++ mark :: y ∧ mark ∉ x ∧ Paired y := by
  induction s with
  | nil => cases h
  | cons c s ih =>
    rw [List.foldl_cons, stepQuote] at h
    by_cases hc : c = mark
    · rw [if_pos hc] at h
      exact ⟨[], s, by rw [hc]; rfl, List.not_mem_nil, h⟩
    · rw [if_neg hc] at h
      obtain ⟨x, y, rfl, hx, hy⟩ := ih h
      refine ⟨c :: x, y, rfl, ?_, hy⟩
      rintro hmem
      rcases List.mem_cons.mp hmem with heq | hmem
      · exact hc heq.symm
      · exact hx hmem

/-- Quoted spans are dropped part by part where the quotes of a part pair up. -/
theorem unquoted_append {s : List Char} (hs : Paired s) (t : List Char) :
    unquoted (s ++ t) = unquoted s ++ unquoted t := by
  -- on the length, since a span takes all up to its closing quote at once
  induction hn : s.length using Nat.strongRecOn generalizing s with
  | _ n ih =>
    rcases s with - | ⟨c, s⟩
    · rw [List.nil_append, unquoted_nil, List.nil_append]
    · by_cases hc : isQuote c = true
      · have hopen : s.foldl stepQuote (some c) = none := by
          rw [Paired, List.foldl_cons, stepQuote, if_pos hc] at hs
          exact hs
        obtain ⟨x, y, rfl, hx, hy⟩ := exists_closing_quote hopen
        have hlt : y.length < n := by
          rw [← hn, List.length_cons, List.length_append, List.length_cons]
          omega
        rw [List.cons_append, List.append_assoc, List.cons_append, unquoted_span hc hx,
          unquoted_span hc hx, ih y.length hlt hy rfl]
      · have hplain := Bool.eq_false_iff.mpr hc
        have hrest : Paired s := by
          rw [Paired, List.foldl_cons, stepQuote, if_neg hc] at hs
          exact hs
        rw [List.cons_append, unquoted_cons hplain, unquoted_cons hplain,
          ih s.length (by rw [← hn]; exact Nat.lt_succ_self _) hrest rfl, List.cons_append]

/-! ## Braces -/

/-- A part moves the depth by the braces it opens and closes. -/
theorem outsideBlocks_append (depth : Int) (s t : List Char) :
    outsideBlocks depth (s ++ t) =
      outsideBlocks depth s ++ outsideBlocks (depth + s.count '{' - s.count '}') t := by
  induction s generalizing depth with
  | nil => simp [outsideBlocks]
  | cons c s ih =>
    rw [List.cons_append, outsideBlocks, outsideBlocks]
    by_cases hopen : c = '{'
    · subst hopen
      have hdepth : depth + 1 + (s.count '{' : Int) - s.count '}' =
          depth + (('{' :: s).count '{' : Nat) - (('{' :: s).count '}' : Nat) := by
        rw [List.count_cons_self, List.count_cons_of_ne (by decide)]
        omega
      rw [if_pos rfl, if_pos rfl, ih, hdepth]
    · by_cases hclose : c = '}'
      · subst hclose
        have hdepth : depth - 1 + (s.count '{' : Int) - s.count '}' =
            depth + (('}' :: s).count '{' : Nat) - (('}' :: s).count '}' : Nat) := by
          rw [List.count_cons_self, List.count_cons_of_ne (by decide)]
          omega
        rw [if_neg hopen, if_pos rfl, if_neg hopen, if_pos rfl, ih, hdepth]
      · rw [if_neg hopen, if_neg hclose, if_neg hopen, if_neg hclose,
          List.count_cons_of_ne hopen, List.count_cons_of_ne hclose]
        split
        · rw [ih, List.cons_append]
        · exact ih depth

/-- A part that closes as many braces as it opens leaves the depth where it was. -/
theorem withoutActions_append {s : List Char} (hs : s.count '{' = s.count '}') (t : List Char) :
    withoutActions (s ++ t) = withoutActions s ++ withoutActions t := by
  rw [withoutActions, outsideBlocks_append, hs, Int.zero_add, Int.sub_self]
  rfl

/-! ## Comments -/

/-- A text without a comment mark passes both comment passes unchanged. -/
theorem withoutComments_eq_self {s : List Char}
    (h : ∀ i < s.length, opensComment (s.drop i) = false) :
    eraseMatches closedComment? (withoutLineComments s) = s := by
  rw [withoutLineComments_eq_self h, eraseMatches]
  refine replaceMatches_eq_self (fun i hi lineStart => ?_) [] true
  refine Option.eq_none_iff_forall_ne_some.mpr fun tail hmatch => ?_
  obtain ⟨body, hopen, -⟩ := Option.bind_eq_some_iff.mp hmatch
  have hdrop := after?_eq_some_iff.mp hopen
  have hclear := h i hi
  rw [hdrop] at hclear
  cases hclear

end GrammarAudit.Grammar
