import GrammarAudit.Proofs.Grammar.CommentWalk

/-!
# What stripping leaves holds no comment mark

Neither pass over the comments makes a mark where it closes a gap: behind a dropped line comment
comes the end of its line, and before a dropped block comment no slash can stand, since it would
have begun a line comment. So the stripped text holds no mark at all, and a second stripping finds
nothing to do.

- `MarkFree`: no comment mark stands in a text.
- `JoinsNothing`: no mark lies across a dropped stretch.
- `lineMark_not_infix_dropLineComments`, `markFree_dropBlockComments`: what each pass leaves.
- `joinsNothing_codeInLine`, `joinsNothing_of_markFree`: what each pass joins.
- `stripComments_leaves_no_mark`: stripping is complete and idempotent.
-/

namespace GrammarAudit.Grammar

/-! ## Texts without a mark -/

/-- A text that holds neither mark of a comment. -/
def MarkFree (s : List Char) : Prop :=
  ¬['/', '/'] <:+: s ∧ ¬['/', '*'] <:+: s

/-- A mark stands at the start of a text exactly if the text begins with its two characters. -/
theorem opensComment_iff {s : List Char} :
    opensComment s = true ↔ ['/', '/'] <+: s ∨ ['/', '*'] <+: s := by
  constructor
  · intro h
    unfold opensComment at h
    split at h
    · exact .inl ⟨_, rfl⟩
    · exact .inr ⟨_, rfl⟩
    · cases h
  · rintro (⟨t, rfl⟩ | ⟨t, rfl⟩) <;> rfl

theorem markFree_nil : MarkFree [] := by
  simp [MarkFree]

theorem markFree_cons_iff {c : Char} {s : List Char} :
    MarkFree (c :: s) ↔ opensComment (c :: s) = false ∧ MarkFree s := by
  rw [← Bool.not_eq_true, opensComment_iff, MarkFree, List.infix_cons_iff, List.infix_cons_iff,
    MarkFree, not_or, not_or, not_or]
  exact and_and_and_comm

/-- No mark stands anywhere in a text that is free of them. -/
theorem MarkFree.opensComment_eq_false {s t : List Char} (hs : MarkFree s) (ht : t <:+: s) :
    opensComment t = false := by
  rw [← Bool.not_eq_true, opensComment_iff]
  rintro (h | h)
  · exact hs.1 (h.isInfix.trans ht)
  · exact hs.2 (h.isInfix.trans ht)

/-! ## The pass over line comments -/

/-- The pass over line comments leaves no mark of them. -/
theorem lineMark_not_infix_dropLineComments (inLine : Bool) (s : List Char) :
    ¬['/', '/'] <:+: dropLineComments inLine s := by
  fun_induction dropLineComments inLine s with
  | case1 inLine => simp
  | case2 rest ih => simpa [List.infix_cons_iff] using ih
  | case3 c rest hc ih => exact ih
  | case4 rest ih => exact ih
  | case5 c rest h ih =>
    rintro hinfix
    rcases List.infix_cons_iff.mp hinfix with ⟨t, ht⟩ | hinfix
    · -- a slash that is kept before a slash that is kept stands before it in the text as well
      obtain ⟨hc, hrest⟩ := List.cons.inj ht
      obtain ⟨u, hu⟩ := head_dropLineComments_false hrest.symm (by decide)
      exact h u hc.symm hu
    · exact ih hinfix

/-- A text without a mark of line comments passes unchanged. -/
theorem withoutLineComments_eq_self_of_not_infix {s : List Char} (h : ¬['/', '/'] <:+: s) :
    withoutLineComments s = s := by
  rw [withoutLineComments]
  induction s with
  | nil => rfl
  | cons c s ih =>
    rw [List.infix_cons_iff, not_or] at h
    rw [dropLineComments_false_cons, ih h.2]
    rintro rest rfl rfl
    exact h.1 ⟨rest, rfl⟩

/-- What is kept right behind a dropped character ends a line. The flag tells whether the text
starts in a line comment, that is, behind a dropped character. -/
theorem lineFeed_of_codeInLineFrom {inLine : Bool} {s : List Char} {k : Nat}
    (hdropped : (inLine :: (codeInLineFrom inLine s).map not)[k]? = some true)
    (hkept : (codeInLineFrom inLine s)[k]? = some true) : s[k]? = some '\n' := by
  fun_induction codeInLineFrom inLine s generalizing k with
  | case1 => cases hkept
  | case2 rest ih =>
    rcases k with - | k
    · rfl
    · exact ih hdropped hkept
  | case3 c rest hc ih =>
    rcases k with - | k
    · cases hkept
    · exact ih hdropped hkept
  | case4 rest ih =>
    rcases k with - | - | k
    · cases hkept
    · cases hkept
    · exact ih hdropped hkept
  | case5 c rest h ih =>
    rcases k with - | k
    · cases hdropped
    · exact ih hdropped hkept

/-! ## The pass over block comments -/

/-- The first character that is left in code is the first of the text, unless a block comment begins
there. -/
theorem head_dropBlockComments_false {s t : List Char} {d : Char} (hs : s.head? ≠ some '/')
    (h : dropBlockComments false s = d :: t) : ∃ rest, s = d :: rest := by
  rcases s with - | ⟨c, s⟩
  · cases h
  · rw [dropBlockComments_false_cons fun _ hc _ => hs (congrArg some hc)] at h
    exact ⟨s, by rw [(List.cons.inj h).1]⟩

/-- Where no line comment is left, the pass over block comments leaves no mark. -/
theorem markFree_dropBlockComments {inBlock : Bool} {s : List Char} (hs : ¬['/', '/'] <:+: s) :
    MarkFree (dropBlockComments inBlock s) := by
  have htail {c : Char} {t : List Char} (h : ¬['/', '/'] <:+: c :: t) : ¬['/', '/'] <:+: t :=
    fun ht => h (List.infix_cons ht)
  fun_induction dropBlockComments inBlock s with
  | case1 => exact markFree_nil
  | case2 rest ih => exact ih (htail (htail hs))
  | case3 c rest h ih => exact ih (htail hs)
  | case4 rest ih => exact ih (htail (htail hs))
  | case5 c rest h ih =>
    refine markFree_cons_iff.mpr ⟨?_, ih (htail hs)⟩
    -- behind a slash that is kept no comment begins, so what follows it is kept as well
    have hnext {d : Char} {t : List Char} (hc : c = '/')
        (hd : dropBlockComments false rest = d :: t) : ∃ u, rest = d :: u := by
      refine head_dropBlockComments_false (fun hhead => hs ?_) hd
      obtain ⟨u, rfl⟩ := List.head?_eq_some_iff.mp hhead
      exact ⟨[], u, by rw [hc]; rfl⟩
    refine opensComment_cons_eq_false (fun t hc ht => ?_) fun t hc ht => ?_
    · obtain ⟨u, rfl⟩ := hnext hc ht
      exact hs ⟨[], u, by rw [hc]; rfl⟩
    · obtain ⟨u, hu⟩ := hnext hc ht
      exact h u hc hu

theorem markFree_stripComments (s : List Char) : MarkFree (stripComments s) :=
  markFree_dropBlockComments (lineMark_not_infix_dropLineComments false s)

/-- A text without a mark is left alone. -/
theorem MarkFree.stripComments_eq_self {s : List Char} (hs : MarkFree s) : stripComments s = s :=
  stripComments_eq_self_iff.mpr fun i _ =>
    hs.opensComment_eq_false (List.drop_suffix i s).isInfix

/-! ## Across a gap -/

/-- No two characters that stand around a dropped stretch make a comment mark. -/
def JoinsNothing (s : List Char) (flags : List Bool) : Prop :=
  ∀ i j, i + 1 < j → flags[i]? = some true → flags[j]? = some true →
    (∀ k, i < k → k < j → flags[k]? = some false) →
      ∀ c d, s[i]? = some c → s[j]? = some d → opensComment [c, d] = false

/-- The pass over line comments joins nothing: what follows a gap ends a line. -/
theorem joinsNothing_codeInLine (s : List Char) : JoinsNothing s (codeInLine s) := by
  intro i j hij _ hj hbetween c d _ hd
  obtain ⟨k, rfl⟩ : ∃ k, j = k + 1 := ⟨j - 1, by omega⟩
  have hdropped : (false :: (codeInLineFrom false s).map not)[k + 1]? = some true := by
    rw [List.getElem?_cons_succ, List.getElem?_map]
    exact congrArg (Option.map not) (hbetween k (by omega) (Nat.lt_succ_self k))
  obtain rfl : d = '\n' := by
    rw [lineFeed_of_codeInLineFrom hdropped hj] at hd
    exact (Option.some.inj hd).symm
  exact opensComment_cons_eq_false (fun _ _ h => absurd (List.cons.inj h).1 (by decide))
    fun _ _ h => absurd (List.cons.inj h).1 (by decide)

/-- The first character that is kept comes first in what is left. -/
theorem prefix_keep {s : List Char} {flags : List Bool} {j : Nat} {d : Char}
    (hj : flags[j]? = some true) (hbefore : ∀ k < j, flags[k]? = some false)
    (hd : s[j]? = some d) : [d] <+: keep s flags := by
  induction s generalizing flags j with
  | nil => cases hd
  | cons c s ih =>
    rcases flags with - | ⟨flag, flags⟩
    · cases hj
    rcases j with - | j
    · cases hj
      cases hd
      exact ⟨keep s flags, rfl⟩
    · cases hbefore 0 (Nat.zero_lt_succ j)
      exact ih hj (fun k hk => hbefore (k + 1) (Nat.succ_lt_succ hk)) hd

/-- Two characters that are kept with none in between are neighbours in what is left. -/
theorem infix_keep {s : List Char} {flags : List Bool} {i j : Nat} {c d : Char} (hij : i < j)
    (hi : flags[i]? = some true) (hj : flags[j]? = some true)
    (hbetween : ∀ k, i < k → k < j → flags[k]? = some false) (hc : s[i]? = some c)
    (hd : s[j]? = some d) : [c, d] <:+: keep s flags := by
  induction s generalizing flags i j with
  | nil => cases hc
  | cons a s ih =>
    rcases flags with - | ⟨flag, flags⟩
    · cases hi
    obtain ⟨j, rfl⟩ : ∃ k, j = k + 1 := ⟨j - 1, by omega⟩
    rcases i with - | i
    · cases hi
      cases hc
      have hnext : [d] <+: keep s flags := prefix_keep hj
        (fun k hk => hbetween (k + 1) (Nat.zero_lt_succ k) (Nat.succ_lt_succ hk)) hd
      exact (List.cons_prefix_cons.mpr ⟨rfl, hnext⟩).isInfix
    · have hrest : [c, d] <:+: keep s flags := ih (Nat.lt_of_succ_lt_succ hij) hi hj
        (fun k hik hkj => hbetween (k + 1) (Nat.succ_lt_succ hik) (Nat.succ_lt_succ hkj)) hc hd
      rw [keep_cons]
      split
      · exact List.infix_cons hrest
      · exact hrest

/-- What joins to a text without a mark joins nothing. -/
theorem joinsNothing_of_markFree {s : List Char} {flags : List Bool}
    (h : MarkFree (keep s flags)) : JoinsNothing s flags := by
  intro i j hij hi hj hbetween c d hc hd
  exact h.opensComment_eq_false
    (infix_keep (Nat.lt_of_succ_lt hij) hi hj hbetween hc hd)

/-- **Stripping is complete**: what it leaves holds no comment mark, so stripping that once more
changes nothing. Neither of the two passes makes a mark out of the characters around what it drops,
and nor do both together. -/
theorem stripComments_leaves_no_mark (s : List Char) :
    MarkFree (stripComments s) ∧ stripComments (stripComments s) = stripComments s ∧
      (withoutLineComments s = keep s (codeInLine s) ∧ JoinsNothing s (codeInLine s)) ∧
      (stripComments s = keep (withoutLineComments s) (kept (withoutLineComments s)) ∧
        JoinsNothing (withoutLineComments s) (kept (withoutLineComments s))) ∧
      (stripComments s = keep s (kept s) ∧ JoinsNothing s (kept s)) := by
  have hfree := markFree_stripComments s
  have hcode : stripComments (withoutLineComments s) = stripComments s := by
    have hsame : withoutLineComments (withoutLineComments s) = withoutLineComments s :=
      withoutLineComments_eq_self_of_not_infix (lineMark_not_infix_dropLineComments false s)
    rw [stripComments, hsame]
    rfl
  refine ⟨hfree, hfree.stripComments_eq_self, ?lines, ?blocks, ?both⟩
  case lines => exact ⟨dropLineComments_eq_keep false s, joinsNothing_codeInLine s⟩
  case blocks =>
    have hkeep := hcode.symm.trans (stripComments_eq_keep (withoutLineComments s))
    exact ⟨hkeep, joinsNothing_of_markFree (hkeep ▸ hfree)⟩
  case both =>
    have hkeep := stripComments_eq_keep s
    exact ⟨hkeep, joinsNothing_of_markFree (hkeep ▸ hfree)⟩

end GrammarAudit.Grammar
