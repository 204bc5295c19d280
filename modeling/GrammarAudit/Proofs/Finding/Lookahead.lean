import GrammarAudit.Finding.Metrics
import GrammarAudit.Proofs.Finding.TokenClasses
import Mathlib.Data.List.Nodup

/-!
# Lookahead and hints

The estimated lookahead of a rule and its hints both go by the first tokens of its alternatives. A
hint needs a token that two alternatives start with; the estimate counts the distinct keys, and two
alternatives that start with no token have one key as well. So where neither optional elements nor
nesting add to it, the estimate is above its base exactly if the rule has a hint or two of its
alternatives start with no token.

- `count_tokenKeys_empty`: the alternatives that start with no token are those with the empty key.
- `sharesToken_iff`, `hintsOf_ne_nil_iff`: what each of the two detectors looks for.
- `IsHinted`, `isHinted_iff`: the hints for a rule among those of all rules.
- `lookahead_above_base_iff`: where the two detectors agree.
- `lookahead_of_blocks`: two alternatives in parentheses, on which they do not.
-/

namespace GrammarAudit

open Grammar

/-! ## Alternatives without a token -/

section LowerCase

open Text

theorem lowerChar_ne_nil (c : Char) : lowerChar c ≠ [] := by
  unfold lowerChar
  split
  · exact List.cons_ne_nil _ _
  · split <;> exact List.cons_ne_nil _ _

/-- No text vanishes in lower case. -/
theorem lower_eq_nil_iff {s : List Char} : lower s = [] ↔ s = [] := by
  constructor
  · intro h
    rcases s with - | ⟨c, s⟩
    · rfl
    · obtain ⟨hsmall, -⟩ := List.append_eq_nil_iff.mp h
      split at hsmall
      · cases hsmall
      · exact absurd hsmall (lowerChar_ne_nil c)
  · rintro rfl
    rfl

end LowerCase

theorem tokenKey_eq_empty_iff {alternative : List Char} :
    tokenKey alternative = "" ↔ firstToken alternative = [] := by
  rw [tokenKey, ← lower_eq_nil_iff, ← String.toList_inj, String.toList_ofList]
  rfl

variable {rule : Rule}

/-- The number of alternatives of a rule that start with no token. -/
def Rule.tokenless (rule : Rule) : Nat :=
  (splitAlternatives rule.text.toList).countP fun alternative => firstToken alternative = []

/-- The alternatives that start with no token are those with the empty key. -/
theorem count_tokenKeys_empty (rule : Rule) : rule.tokenKeys.count "" = rule.tokenless := by
  rw [Rule.tokenKeys, List.count, List.countP_map, Rule.tokenless]
  refine List.countP_congr fun alternative _ => ?_
  simp [tokenKey_eq_empty_iff]

/-! ## What the detectors look for -/

theorem not_nodup_iff_two_le_count {keys : List String} :
    ¬keys.Nodup ↔ ∃ key, 2 ≤ keys.count key := by
  rw [List.nodup_iff_count_le_one, not_forall]
  exact exists_congr fun key => Nat.not_le

theorem length_positionsOf (keys : List String) (key : String) :
    (positionsOf keys key).length = keys.count key := by
  induction keys using List.reverseRecOn with
  | nil => rfl
  | append_singleton keys last ih =>
    rw [positionsOf_concat, List.length_append, ih, List.count_append]
    by_cases h : last = key
    · simp [h]
    · simp [h]

/-- The estimate looks for a key that two alternatives have. -/
theorem sharesToken_iff : sharesToken (splitAlternatives rule.text.toList) = true ↔
    ∃ key, 2 ≤ rule.tokenKeys.count key := by
  rw [← not_nodup_iff_two_le_count, ← length_distinct_lt_iff, sharesToken, decide_eq_true_eq,
    Rule.tokenKeys, List.length_map]

/-- Hints are for the tokens that two alternatives start with. -/
theorem hintsOf_ne_nil_iff (parser : rule.kind = .parser) :
    hintsOf rule ≠ [] ↔ ∃ token, token ≠ "" ∧ 2 ≤ rule.tokenKeys.count token := by
  rw [hintsOf_eq_map_sharedTokens parser, ne_eq, List.map_eq_nil_iff,
    List.eq_nil_iff_forall_not_mem, not_forall]
  refine exists_congr fun token => ?_
  rw [Classical.not_not, mem_sharedTokens_iff, length_positionsOf]

/-- A key that two alternatives have is a token, or they start with none. -/
theorem sharesToken_iff_hint_or_tokenless (parser : rule.kind = .parser) :
    sharesToken (splitAlternatives rule.text.toList) = true ↔
      hintsOf rule ≠ [] ∨ 2 ≤ rule.tokenless := by
  rw [sharesToken_iff, hintsOf_ne_nil_iff parser, ← count_tokenKeys_empty]
  constructor
  · rintro ⟨key, hkey⟩
    by_cases hempty : key = ""
    · exact .inr (hempty ▸ hkey)
    · exact .inl ⟨key, hempty, hkey⟩
  · rintro (⟨token, -, htoken⟩ | hempty)
    · exact ⟨token, htoken⟩
    · exact ⟨"", hempty⟩

/-! ## The estimate and the hints -/

/-- Without optional elements and deep nesting, only a common key raises the estimate. -/
theorem base_lt_estimateLookahead_iff {text : List Char} (optional : hasOptional text = false)
    (shallow : nestingDepth text ≤ shallowNesting) :
    baseLookahead < estimateLookahead text ↔ sharesToken (splitAlternatives text) = true := by
  unfold estimateLookahead
  simp only [optional, if_neg (Int.not_lt.mpr shallow)]
  cases hshares : sharesToken (splitAlternatives text) with
  | false =>
    rw [Bool.and_false]
    decide
  | true =>
    -- two of the alternatives have one key, so there are two
    have htwo : 1 < (splitAlternatives text).length := by
      have hlt : (distinct ((splitAlternatives text).map tokenKey)).length <
          (splitAlternatives text).length := of_decide_eq_true hshares
      rcases halternatives : splitAlternatives text with - | ⟨first, - | ⟨second, rest⟩⟩
      · rw [halternatives] at hlt
        exact absurd hlt (Nat.not_lt_zero _)
      · rw [halternatives] at hlt
        exact absurd hlt (Nat.lt_irrefl 1)
      · exact Nat.succ_lt_succ (Nat.succ_pos _)
    rw [decide_eq_true htwo]
    decide

/-- One of the hints for some rules is for this one. -/
def IsHinted (rules : List Rule) (rule : Rule) : Prop :=
  ∃ hint ∈ ambiguityHints rules, hint.rule = rule.name

/-- Among rules of other names, the hints for a rule are its own. -/
theorem isHinted_iff {rules : List Rule} (hmem : rule ∈ rules)
    (honly : ∀ other ∈ rules, other.name = rule.name → other = rule) :
    IsHinted rules rule ↔ hintsOf rule ≠ [] := by
  have hname {other : Rule} {hint : Hint} (h : hint ∈ hintsOf other) : hint.rule = other.name := by
    unfold hintsOf at h
    split at h
    · obtain ⟨group, -, rfl⟩ := List.mem_map.mp h
      rfl
    · cases h
  constructor
  · rintro ⟨hint, hhint, hrule⟩
    obtain ⟨other, hother, hhint⟩ := List.mem_flatMap.mp hhint
    obtain rfl := honly other hother ((hname hhint).symm.trans hrule)
    exact List.ne_nil_of_mem hhint
  · intro hne
    obtain ⟨hint, hhint⟩ := List.exists_mem_of_ne_nil _ hne
    exact ⟨hint, List.mem_flatMap.mpr ⟨rule, hmem, hhint⟩, hname hhint⟩

/-- **Lookahead and hints agree but for alternatives without a token.** The estimated lookahead of
a parser rule without optional elements and deep nesting is above its base exactly if the rule has
a hint or two of its alternatives start with no token. So the two detectors agree on it exactly if
it has a hint wherever two of its alternatives start with no token. -/
theorem lookahead_above_base_iff {rules : List Rule} (parser : rule.kind = .parser)
    (question : '?' ∉ rule.text.toList) (star : '*' ∉ rule.text.toList)
    (shallow : nestingDepth rule.text.toList ≤ 2) (hmem : rule ∈ rules)
    (honly : ∀ other ∈ rules, other.name = rule.name → other = rule) :
    (baseLookahead < estimateLookahead rule.text.toList ↔
      IsHinted rules rule ∨ 2 ≤ rule.tokenless) ∧
    ((baseLookahead < estimateLookahead rule.text.toList ↔ IsHinted rules rule) ↔
      (2 ≤ rule.tokenless → IsHinted rules rule)) := by
  have optional : hasOptional rule.text.toList = false := by simp [hasOptional, question, star]
  have hraised : baseLookahead < estimateLookahead rule.text.toList ↔
      IsHinted rules rule ∨ 2 ≤ rule.tokenless := by
    rw [base_lt_estimateLookahead_iff optional shallow, sharesToken_iff_hint_or_tokenless parser,
      isHinted_iff hmem honly]
  refine ⟨hraised, ?_⟩
  rw [hraised]
  exact or_iff_left_iff_imp

/-- Two alternatives start with one token, and only one with none. -/
theorem lookahead_above_base_of_tokens :
    let rule : Rule := ⟨"a", .parser, 1, 0, 1, 23, "a : 'X' b | (c) | 'x' ;", 3, [], []⟩
    rule.tokenless = 1 ∧ baseLookahead < estimateLookahead rule.text.toList ∧
      IsHinted [rule] rule := by
  intro rule
  have htokenless : rule.tokenless = 1 := by decide +kernel
  have hraised : baseLookahead < estimateLookahead rule.text.toList := by decide +kernel
  obtain ⟨-, hagree⟩ := @lookahead_above_base_iff rule [rule] rfl (by decide +kernel)
    (by decide +kernel) (by decide +kernel) List.mem_cons_self
    (fun other hother _ => List.mem_singleton.mp hother)
  refine ⟨htokenless, hraised, (hagree.mpr fun htwo => ?_).mp hraised⟩
  rw [htokenless] at htwo
  omega

/-- Two alternatives in parentheses start with no token: they have no hint, and yet they raise the
estimate. -/
theorem lookahead_of_blocks :
    let rule : Rule := ⟨"a", .parser, 1, 0, 1, 15, "a : (b) | (c) ;", 2, ["b", "c"], []⟩
    '?' ∉ rule.text.toList ∧ '*' ∉ rule.text.toList ∧ nestingDepth rule.text.toList = 1 ∧
      baseLookahead < estimateLookahead rule.text.toList ∧ ambiguityHints [rule] = [] := by
  decide +kernel

end GrammarAudit
