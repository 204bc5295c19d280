import GrammarAudit.Proofs.Grammar.Identifier
import GrammarAudit.Proofs.Text.Stretch

/-!
# Passes that respect words

Turning the matches of a pattern into blanks can cut a word and make an identifier of what is left.
The patterns for element options, lexer commands and labels do not: a match begins at no identifier
character that was passed over, and what follows it begins no identifier in the middle of a word.

- `RespectsWords`: such a pattern.
- `mem_of_mem_replaceMatches`: its pass finds no new identifiers.
- `respectsWords_elementOptions?` and three more: the patterns of the pass over a rule body.
-/

namespace GrammarAudit.Grammar

open Text

/-- A pattern whose matches neither begin inside an identifier that was passed over nor end right
before an identifier character of the same word. -/
structure RespectsWords (pattern : Pattern) : Prop where
  consuming : pattern.Consuming
  /-- Where it does not match an identifier, it matches nowhere inside it. -/
  start : ∀ lineStart c x d z, isIdentStart c = true →
    pattern lineStart (c :: (x ++ d :: z)) = none → (∀ e ∈ x, isIdentChar e = true) →
      isIdentChar d = true → ∀ lineStart, pattern lineStart (d :: z) = none
  /-- What follows a match begins no identifier, unless the match ends outside a word. -/
  stop : ∀ lineStart s tail, pattern lineStart s = some tail →
    (∃ d, d :: tail <:+ s ∧ isWordPart d = false) ∨ ∀ d z, tail = d :: z → isIdentStart d = false

/-- Where a pattern matches nowhere in a run of identifier characters, the run stays. -/
theorem takeWhile_replaceMatches {pattern : Pattern} {lineStart : Bool} {s : List Char}
    (h : ∀ x d z, s = x ++ d :: z → (∀ e ∈ x, isIdentChar e = true) → isIdentChar d = true →
      ∀ lineStart, pattern lineStart (d :: z) = none) :
    (replaceMatches [' '] pattern lineStart s).takeWhile isIdentChar = s.takeWhile isIdentChar := by
  induction s generalizing lineStart with
  | nil => rw [replaceMatches]
  | cons c s ih =>
    by_cases hc : isIdentChar c = true
    · have hrun : ∀ x d z, s = x ++ d :: z → (∀ e ∈ x, isIdentChar e = true) →
          isIdentChar d = true → ∀ lineStart, pattern lineStart (d :: z) = none := by
        rintro x d z rfl hx
        refine h (c :: x) d z rfl fun e he => ?_
        rcases List.mem_cons.mp he with rfl | he
        · exact hc
        · exact hx e he
      have hnone := h [] c s rfl (fun e he => absurd he List.not_mem_nil) hc lineStart
      rw [replaceMatches_of_none hnone, List.takeWhile_cons_of_pos hc,
        List.takeWhile_cons_of_pos hc, ih hrun]
    · rw [List.takeWhile_cons_of_neg hc, replaceMatches]
      split
      · split
        · rw [List.cons_append, List.takeWhile_cons_of_neg (by decide)]
        · rw [List.takeWhile_cons_of_neg hc]
      · rw [List.takeWhile_cons_of_neg hc]

/-- **A pass that respects words** finds no new identifiers. -/
theorem mem_of_mem_replaceMatches {pattern : Pattern} (hp : RespectsWords pattern)
    {lineStart afterWord : Bool} {s : List Char} {name : String}
    (h : name ∈ identifiersFrom afterWord (replaceMatches [' '] pattern lineStart s)) :
    name ∈ identifiersFrom afterWord s := by
  fun_induction replaceMatches [' '] pattern lineStart s generalizing afterWord with
  | case1 => exact h
  | case2 lineStart c rest tail hmatch hle ih =>
    rw [List.cons_append, List.nil_append, identifiersFrom_cons_of_not_start (by decide)] at h
    have htail := ih h
    -- the blank lets an identifier start right after the match; none starts inside a word there
    rcases hp.stop lineStart (c :: rest) tail hmatch with ⟨d, ⟨v, hs⟩, hd⟩ | hstart
    · rw [← hs, ← List.singleton_append, ← List.append_assoc]
      refine mem_identifiersFrom_append ?_
      rw [wordAfter_concat, hd]
      exact htail
    · obtain ⟨t, rfl⟩ := hp.consuming lineStart c rest tail hmatch
      rw [← List.cons_append]
      refine mem_identifiersFrom_append ?_
      rw [identifiersFrom_congr hstart _ (isWordPart ' ')]
      exact htail
  | case3 lineStart c rest tail hmatch hle ih =>
    exact absurd (hp.consuming lineStart c rest tail hmatch).length_le hle
  | case4 lineStart c rest hmatch ih =>
    by_cases hc : isIdentStart c = true
    · cases afterWord with
      | true => exact ih h
      | false =>
        rw [identifiersFrom_false_cons_of_start hc, takeWhile_replaceMatches] at h
        · rw [identifiersFrom_false_cons_of_start hc]
          rcases List.mem_cons.mp h with rfl | h
          · exact List.mem_cons_self
          · exact List.mem_cons_of_mem _ (ih h)
        · rintro x d z rfl hx hd
          exact hp.start lineStart c x d z hc hmatch hx hd
    · have hstart := Bool.eq_false_iff.mpr hc
      rw [identifiersFrom_cons_of_not_start hstart] at h ⊢
      exact ih h

/-! ## The patterns of a rule body -/

theorem not_isIdentStart_of_not_isIdentChar {c : Char} (h : isIdentChar c = false) :
    isIdentStart c = false := by
  refine Bool.eq_false_iff.mpr fun hc => ?_
  rw [isIdentChar_of_isIdentStart hc] at h
  cases h

/-- What is left when a run of characters is dropped does not begin with one of them. -/
theorem not_of_dropWhile_eq_cons {p : Char → Bool} {s t : List Char} {c : Char}
    (h : s.dropWhile p = c :: t) : p c = false := by
  have hne : s.dropWhile p ≠ [] := by
    rw [h]
    exact List.cons_ne_nil c t
  have hhead := List.head_dropWhile_not p hne
  simp only [h, List.head_cons] at hhead
  exact hhead

theorem elementOptions?_eq_some {lineStart : Bool} {s tail : List Char}
    (h : elementOptions? lineStart s = some tail) :
    ∃ rest, s = '<' :: rest ∧ '>' :: tail <:+ rest := by
  obtain ⟨rest, hopen, hclose⟩ := Option.bind_eq_some_iff.mp h
  refine ⟨rest, after?_eq_some_iff.mp hopen, ?_⟩
  have hdrop := after?_eq_some_iff.mp hclose
  rw [List.singleton_append] at hdrop
  rw [← hdrop]
  exact List.dropWhile_suffix _

theorem lexerCommands?_eq_some {lineStart : Bool} {s tail : List Char}
    (h : lexerCommands? lineStart s = some tail) :
    ∃ rest, s = '-' :: '>' :: rest ∧ rest.dropWhile (fun c => c != '|' && c != ';') = tail := by
  obtain ⟨rest, hopen, hdrop⟩ := Option.map_eq_some_iff.mp h
  exact ⟨rest, after?_eq_some_iff.mp hopen, hdrop⟩

theorem afterIdentifier?_eq_some {s tail : List Char} (h : afterIdentifier? s = some tail) :
    ∃ c rest, s = c :: rest ∧ isIdentStart c = true ∧ rest.dropWhile isIdentChar = tail := by
  rcases s with - | ⟨c, rest⟩
  · cases h
  · rw [afterIdentifier?] at h
    split at h
    · next hc => exact ⟨c, rest, rfl, hc, Option.some.inj h⟩
    · cases h

theorem alternativeLabel?_eq_some {lineStart : Bool} {s tail : List Char}
    (h : alternativeLabel? lineStart s = some tail) :
    ∃ rest c t, s = '#' :: rest ∧ trimStart rest = c :: t ∧ t.dropWhile isIdentChar = tail := by
  obtain ⟨rest, hopen, hident⟩ := Option.bind_eq_some_iff.mp h
  obtain ⟨c, t, hrest, -, hdrop⟩ := afterIdentifier?_eq_some hident
  exact ⟨rest, c, t, after?_eq_some_iff.mp hopen, hrest, hdrop⟩

theorem elementLabel?_eq_some {lineStart : Bool} {s tail : List Char}
    (h : elementLabel? lineStart s = some tail) :
    ∃ c rest, s = c :: rest ∧ '=' :: tail <:+ rest := by
  obtain ⟨r, hident, hmark⟩ := Option.bind_eq_some_iff.mp h
  obtain ⟨c, rest, rfl, -, rfl⟩ := afterIdentifier?_eq_some hident
  refine ⟨c, rest, rfl, ?_⟩
  have hmark := after?_eq_some_iff.mp hmark
  rw [List.singleton_append] at hmark
  rw [← hmark]
  have htrim : trimStart (rest.dropWhile isIdentChar) <:+ rest :=
    (List.dropWhile_suffix _).trans (List.dropWhile_suffix _)
  cases hplus : after? ['+'] (trimStart (rest.dropWhile isIdentChar)) with
  | none => exact htrim
  | some r =>
    have hsuffix : r <:+ trimStart (rest.dropWhile isIdentChar) :=
      ⟨['+'], (after?_eq_some_iff.mp hplus).symm⟩
    exact hsuffix.trans htrim

/-- A pattern that begins with a character of no word matches nowhere inside an identifier. -/
theorem eq_none_of_opener {pattern : Pattern} {o d : Char} (ho : isIdentChar o = false)
    (h : ∀ lineStart s tail, pattern lineStart s = some tail → ∃ rest, s = o :: rest)
    (hd : isIdentChar d = true) (z : List Char) (lineStart : Bool) :
    pattern lineStart (d :: z) = none := by
  refine Option.eq_none_iff_forall_ne_some.mpr fun tail hmatch => ?_
  obtain ⟨rest, hs⟩ := h lineStart (d :: z) tail hmatch
  rw [(List.cons.inj hs).1, ho] at hd
  cases hd

theorem respectsWords_elementOptions? : RespectsWords elementOptions? where
  consuming := by
    intro lineStart c rest tail h
    obtain ⟨rest', hs, hsuffix⟩ := elementOptions?_eq_some h
    rw [(List.cons.inj hs).2]
    exact (List.suffix_cons _ _).trans hsuffix
  start := by
    intro _ c x d z _ _ _ hd
    refine eq_none_of_opener (o := '<') (by decide) (fun lineStart s tail h => ?_) hd z
    obtain ⟨rest, rfl, -⟩ := elementOptions?_eq_some h
    exact ⟨rest, rfl⟩
  stop := by
    intro lineStart s tail h
    obtain ⟨rest, rfl, hsuffix⟩ := elementOptions?_eq_some h
    exact .inl ⟨'>', hsuffix.trans (List.suffix_cons _ _), by decide⟩

theorem respectsWords_lexerCommands? : RespectsWords lexerCommands? where
  consuming := by
    intro lineStart c rest tail h
    obtain ⟨rest', hs, rfl⟩ := lexerCommands?_eq_some h
    rw [(List.cons.inj hs).2]
    exact (List.dropWhile_suffix _).trans (List.suffix_cons _ _)
  start := by
    intro _ c x d z _ _ _ hd
    refine eq_none_of_opener (o := '-') (by decide) (fun lineStart s tail h => ?_) hd z
    obtain ⟨rest, rfl, -⟩ := lexerCommands?_eq_some h
    exact ⟨'>' :: rest, rfl⟩
  stop := by
    intro lineStart s tail h
    obtain ⟨rest, -, hdrop⟩ := lexerCommands?_eq_some h
    refine .inr fun d z htail => ?_
    rw [htail] at hdrop
    have hd := not_of_dropWhile_eq_cons hdrop
    by_cases hbar : d = '|'
    · rw [hbar]
      decide
    · have hsemi : d = ';' := by simpa [hbar] using hd
      rw [hsemi]
      decide

theorem respectsWords_alternativeLabel? : RespectsWords alternativeLabel? where
  consuming := by
    intro lineStart c rest tail h
    obtain ⟨rest', d, t, hs, htrim, rfl⟩ := alternativeLabel?_eq_some h
    have hsuffix : d :: t <:+ rest' := htrim ▸ List.dropWhile_suffix _
    rw [(List.cons.inj hs).2]
    exact (List.dropWhile_suffix _).trans ((List.suffix_cons d t).trans hsuffix)
  start := by
    intro _ c x d z _ _ _ hd
    refine eq_none_of_opener (o := '#') (by decide) (fun lineStart s tail h => ?_) hd z
    obtain ⟨rest, _, _, rfl, -⟩ := alternativeLabel?_eq_some h
    exact ⟨rest, rfl⟩
  stop := by
    intro lineStart s tail h
    obtain ⟨rest, c, t, -, -, hdrop⟩ := alternativeLabel?_eq_some h
    refine .inr fun d z htail => not_isIdentStart_of_not_isIdentChar ?_
    rw [htail] at hdrop
    exact not_of_dropWhile_eq_cons hdrop

theorem respectsWords_elementLabel? : RespectsWords elementLabel? where
  consuming := by
    intro lineStart c rest tail h
    obtain ⟨d, rest', hs, hsuffix⟩ := elementLabel?_eq_some h
    rw [(List.cons.inj hs).2]
    exact (List.suffix_cons _ _).trans hsuffix
  start := by
    -- what follows an identifier is the same from anywhere inside it
    intro lineStart c x d z hc hnone hx hd lineStart'
    by_cases hstart : isIdentStart d = true
    · have hrun : afterIdentifier? (c :: (x ++ d :: z)) = afterIdentifier? (d :: z) := by
        rw [afterIdentifier?, afterIdentifier?, if_pos hc, if_pos hstart,
          List.dropWhile_append_of_pos hx, List.dropWhile_cons_of_pos hd]
      unfold elementLabel? at hnone ⊢
      rw [hrun] at hnone
      exact hnone
    · unfold elementLabel?
      rw [afterIdentifier?, if_neg hstart]
      rfl
  stop := by
    intro lineStart s tail h
    obtain ⟨c, rest, rfl, hsuffix⟩ := elementLabel?_eq_some h
    exact .inl ⟨'=', hsuffix.trans (List.suffix_cons _ _), by decide⟩

/-- The passes over a rule body after the first one find no new identifiers. -/
theorem mem_blankMatches_of_mem_symbolReferences {ruleText body : List Char} {name : String}
    (hbody : body? ruleText = some body) (h : name ∈ symbolReferences ruleText) :
    name ∈ identifiersFrom false (blankMatches body enclosure?) ∧ isKeyword name = false := by
  rw [symbolReferences, hbody] at h
  obtain ⟨hname, hkeyword⟩ := mem_names.mp h
  refine ⟨?_, hkeyword⟩
  simp only [List.foldl_cons, List.foldl_nil, blankMatches] at hname
  exact mem_of_mem_replaceMatches respectsWords_elementOptions?
    (mem_of_mem_replaceMatches respectsWords_lexerCommands?
      (mem_of_mem_replaceMatches respectsWords_alternativeLabel?
        (mem_of_mem_replaceMatches respectsWords_elementLabel? hname)))

end GrammarAudit.Grammar
