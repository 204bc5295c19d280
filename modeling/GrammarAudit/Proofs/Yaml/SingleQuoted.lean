import GrammarAudit.Proofs.Yaml.Quoted
import GrammarAudit.Yaml.Writer

/-!
# Texts in single quotes read back, save for one line break

Between single quotes line breaks stand for themselves, the first line feed of a run written twice.
The next-line character is written as it is as well, but it is read as a line feed, and as the first
break of a run it folds away. All other texts read back.

- `nextLine`, `settle`: the one character that is lost, and what a text becomes by that.
- `settle_eq_self_iff`: a text stays as it is exactly if it does not hold that character.
- `ReadsFolded`: what is written of a text, from any point on.
- `readsQuoted_singleQuoted`: a text in single quotes is read as the settled text.
-/

namespace GrammarAudit.Yaml

open Cursor

/-- The line break that is read as a line feed. -/
def nextLine : Char := Char.ofNat 0x85

/-- A text as it is read from single quotes, given whether a line break comes before. The next-line
character becomes a line feed; as the first of a run of breaks it becomes a space if it is alone,
and else nothing. -/
def settle (inRun : Bool) : List Char → List Char
  | [] => []
  | c :: rest =>
    if breaksLine c then
      if c = nextLine && !inRun then
        (if rest.head?.any breaksLine then [] else [' ']) ++ settle true rest
      else asBreak c :: settle true rest
    else c :: settle false rest

variable {c : Char} {s rest : List Char}

/-! ## Settled texts -/

theorem breaksLine_iff :
    breaksLine c = true ↔ c = '\n' ∨ c = nextLine ∨ c.toNat = 0x2028 ∨ c.toNat = 0x2029 := by
  have hnext : c = nextLine ↔ c.toNat = 0x85 := Char.toNat_inj.symm
  rw [hnext]
  constructor
  · intro h
    simp only [breaksLine, isBreak, Bool.and_eq_true, Bool.or_eq_true, decide_eq_true_eq] at h
    rcases h with ⟨(((h | h) | h) | h) | h, hreturn⟩
    · exact .inl h
    · exact absurd h hreturn
    · exact .inr (.inl h)
    · exact .inr (.inr (.inl h))
    · exact .inr (.inr (.inr h))
  · rintro (rfl | h | h | h)
    · rfl
    all_goals
      have hreturn : c ≠ '\r' := by
        rintro rfl
        cases h
      simp [breaksLine, isBreak, h, hreturn]

theorem asBreak_of_breaksLine (hc : breaksLine c = true) (hne : c ≠ nextLine) : asBreak c = c := by
  rcases breaksLine_iff.mp hc with rfl | h | h | h
  · rfl
  · exact absurd h hne
  · simp [asBreak, h]
  · simp [asBreak, h]

theorem asBreak_ne_nextLine (c : Char) : asBreak c ≠ nextLine := by
  unfold asBreak
  split
  · next h =>
    rintro rfl
    exact absurd h (by decide)
  · decide

theorem settle_of_not_mem {inRun : Bool} (h : nextLine ∉ s) : settle inRun s = s := by
  induction s generalizing inRun with
  | nil => rfl
  | cons c s ih =>
    have hc : c ≠ nextLine := fun hc => h (hc ▸ List.mem_cons_self)
    have hs := List.not_mem_of_not_mem_cons h
    rw [settle, ih hs, ih hs, decide_eq_false hc, Bool.false_and, if_neg Bool.false_ne_true]
    split
    · next hbreak => rw [asBreak_of_breaksLine hbreak hc]
    · rfl

theorem nextLine_not_mem_settle (inRun : Bool) (s : List Char) : nextLine ∉ settle inRun s := by
  induction s generalizing inRun with
  | nil => exact List.not_mem_nil
  | cons c s ih =>
    rw [settle]
    split
    · split
      · rw [List.mem_append, not_or]
        refine ⟨?_, ih true⟩
        split
        · exact List.not_mem_nil
        · decide
      · rw [List.mem_cons, not_or]
        exact ⟨(asBreak_ne_nextLine c).symm, ih true⟩
    · next hbreak =>
      rw [List.mem_cons, not_or]
      refine ⟨?_, ih false⟩
      rintro rfl
      exact hbreak rfl

/-- **A text stays as it is exactly if it does not hold the next-line character.** -/
theorem settle_eq_self_iff {inRun : Bool} : settle inRun s = s ↔ nextLine ∉ s :=
  ⟨fun h => h ▸ nextLine_not_mem_settle inRun s, settle_of_not_mem⟩

/-! ## What single quotes can hold -/

theorem hasPair_cons {p q : Char → Bool} (h : hasPair p q (c :: s) = false) :
    hasPair p q s = false ∧ (p c = true → s.head?.any q = false) := by
  cases s with
  | nil => exact ⟨rfl, fun _ => rfl⟩
  | cons d s =>
    rw [hasPair, Bool.or_eq_false_iff] at h
    refine ⟨h.2, fun hc => ?_⟩
    rw [hc, Bool.true_and] at h
    exact h.1

/-- What comes next in a text that needs no double quotes. -/
theorem needsDouble_cons (h : needsDouble (c :: s) = false) :
    isSpecial c = false ∧ needsDouble s = false ∧
      (c = ' ' → s.head?.any breaksLine = false) ∧ (breaksLine c = true → s.head? ≠ some ' ') := by
  unfold needsDouble at h ⊢
  rw [Bool.or_eq_false_iff, Bool.or_eq_false_iff, List.any_cons, Bool.or_eq_false_iff] at h
  obtain ⟨⟨⟨hc, hspecial⟩, hbefore⟩, hbehind⟩ := h
  have hspace := hasPair_cons hbefore
  have hbreak := hasPair_cons hbehind
  refine ⟨hc, ?_, fun h => hspace.2 (decide_eq_true h), fun h hs => ?_⟩
  · rw [hspecial, hspace.1, hbreak.1]
    rfl
  · have hnone := hbreak.2 h
    rw [hs] at hnone
    cases hnone

/-- A character that is not special is a space, a line break or no separator at all. -/
theorem isSpacing_of_not_isSpecial (h : isSpecial c = false) (hspace : c ≠ ' ')
    (hbreak : breaksLine c = false) : isSpacing c = false := by
  have htab : c ≠ '\t' := by
    rintro rfl
    cases h
  have hreturn : c ≠ '\r' := by
    rintro rfl
    cases h
  have hnone : isBreak c = false := by
    simpa [breaksLine, hreturn] using hbreak
  rw [isSpacing, hnone, decide_eq_false hspace, decide_eq_false htab]
  rfl

/-! ## Texts -/

/-- The indentation behind a line break, unless another break follows. -/
def behindBreak (indent : Nat) (s : List Char) : List Char :=
  if s.head?.any breaksLine then [] else List.replicate indent ' '

/-- What stands between single quotes for `s` up to the closing quote, given the character before:
it is read as the settled text, in a run of line breaks together with the breaks that are left of
it. -/
structure ReadsFolded (indent : Nat) (previous : Option Char) (text s rest : List Char) :
    Prop where
  reads : previous.any breaksLine = false → ReadsQuoted '\'' text (settle false s) rest
  goesOn : previous = some ' ' → GoesOn text
  head : s.head? ≠ some ' ' → s.head?.any breaksLine = false →
    ∃ c t, text = c :: t ∧ isSpacing c = false
  breaks : previous.any breaksLine = true → ∃ breaks text' s',
    ReadsBreaks (behindBreak indent s ++ text) breaks text' ∧ ReadsQuoted '\'' text' s' rest ∧
      breaks ++ s' = settle true s ∧ (breaks = [] ↔ s.head?.any breaksLine = false)

variable {text : List Char} {indent : Nat} {previous : Option Char}

/-- A text that starts with no separator is read in a run of breaks behind the indentation. -/
theorem ReadsFolded.of_head {s' : List Char} (hindent : 0 < indent)
    (hbreak : s.head?.any breaksLine = false) (hsettle : ∀ inRun, settle inRun s = s')
    (hc : isSpacing c = false) (h : ReadsQuoted '\'' (c :: text) s' rest) :
    ReadsFolded indent previous (c :: text) s rest where
  reads _ := by rwa [hsettle]
  goesOn _ := goesOn_cons hc text
  head _ _ := ⟨c, text, rfl, hc⟩
  breaks _ := by
    refine ⟨[], c :: text, s', ?_, h, (hsettle true).symm, iff_of_true rfl hbreak⟩
    rw [behindBreak, hbreak, if_neg Bool.false_ne_true]
    exact ReadsBreaks.indentation hindent hc text

theorem ReadsFolded.close (hindent : 0 < indent) (hrest : rest.head? ≠ some '\'') :
    ReadsFolded indent previous ('\'' :: rest) [] rest :=
  ReadsFolded.of_head hindent rfl (fun _ => rfl) rfl
    (ReadsQuoted.close rfl fun _ => hrest)

/-- A character that is no separator; a quote is written twice. -/
theorem ReadsFolded.char (hindent : 0 < indent) (hc : isSpacing c = false)
    (h : ReadsFolded indent (some c) text s rest) :
    ReadsFolded indent previous (singleQuotedChar c ++ text) (c :: s) rest := by
  have hbreak : breaksLine c = false := by
    rw [breaksLine, isBreak_of_not_isSpacing hc]
    rfl
  have hsettle (inRun : Bool) : settle inRun (c :: s) = c :: settle false s := by
    rw [settle, hbreak, if_neg Bool.false_ne_true]
  have hread := h.reads hbreak
  unfold singleQuotedChar
  split
  · next hquote =>
    subst hquote
    exact ReadsFolded.of_head hindent hbreak hsettle rfl hread.quote
  · next hquote =>
    exact ReadsFolded.of_head hindent hbreak hsettle hc
      (hread.char hc hquote fun h => absurd h (by decide))

/-- A space as it is. -/
theorem ReadsFolded.space (hprevious : previous.any breaksLine = false)
    (h : ReadsFolded indent (some ' ') text s rest) :
    ReadsFolded indent previous (' ' :: text) (' ' :: s) rest where
  reads _ := (h.reads rfl).space rfl (h.goesOn rfl)
  goesOn _ := (h.goesOn rfl).space
  head hs := absurd rfl hs
  breaks hbreak := absurd (hprevious.symm.trans hbreak) Bool.false_ne_true

/-- A space in whose place the line is broken. -/
theorem ReadsFolded.fold (hindent : 0 < indent) (hprevious : previous.any breaksLine = false)
    (halone : previous ≠ some ' ') (hspace : s.head? ≠ some ' ')
    (hbreak : s.head?.any breaksLine = false)
    (h : ReadsFolded indent (some ' ') text s rest) :
    ReadsFolded indent previous (freshLine indent ++ text) (' ' :: s) rest where
  reads _ := by
    obtain ⟨c, t, rfl, hc⟩ := h.head hspace hbreak
    exact (h.reads rfl).of_step _
      (quotedStep_breaks rfl (c := '\n') rfl (ReadsBreaks.indentation hindent hc t))
  goesOn hs := absurd hs halone
  head hs := absurd rfl hs
  breaks hbreak := absurd (hprevious.symm.trans hbreak) Bool.false_ne_true

/-- A line break. A line feed is written twice if it is the first break of its run. -/
theorem ReadsFolded.lineBreak (hc : breaksLine c = true) (hprevious : previous ≠ some ' ')
    (h : ReadsFolded indent (some c) text s rest) :
    ReadsFolded indent previous ((if c = '\n' && !previous.any breaksLine then ['\n'] else []) ++
      c :: (behindBreak indent s ++ text)) (c :: s) rest := by
  obtain ⟨breaks, text', s', hbreaks, hread, hsettle, hnone⟩ := h.breaks hc
  have hhead : (c :: s).head?.any breaksLine = true := hc
  refine ⟨fun hfirst => ?reads, fun hs => absurd hs hprevious, fun _ hs => ?head,
    fun hrun => ?breaks⟩
  case head => exact absurd (hhead.symm.trans hs) (by decide)
  case breaks =>
    refine ⟨asBreak c :: breaks, text', s', ?_, hread, ?_, ?_⟩
    · rw [behindBreak, hhead, if_pos rfl, hrun, Bool.not_true, Bool.and_false,
        if_neg Bool.false_ne_true]
      exact hbreaks.cons hc
    · rw [settle, hc, if_pos rfl, Bool.not_true, Bool.and_false, if_neg Bool.false_ne_true,
        List.cons_append, hsettle]
    · exact iff_of_false (List.cons_ne_nil _ _) (by rw [hhead]; decide)
  case reads =>
    rw [hfirst, Bool.not_false, Bool.and_true, settle, hc, if_pos rfl, Bool.not_false,
      Bool.and_true]
    rcases breaksLine_iff.mp hc with rfl | rfl | hother
    · -- the second of the two line feeds is one of the breaks behind the first
      have hrun : foldBreaks '\n' ('\n' :: breaks) ++ s' = '\n' :: settle true s := by
        rw [← hsettle]
        rfl
      have hstep := quotedStep_breaks (show isSpacing '\'' = false from rfl) (c := '\n') rfl
        (hbreaks.cons (c := '\n') rfl)
      exact hrun ▸ hread.of_step _ hstep
    · have hrun : foldBreaks '\n' breaks ++ s' =
          (if s.head?.any breaksLine then [] else [' ']) ++ settle true s := by
        rw [← hsettle, foldBreaks, if_neg (fun h => h rfl)]
        by_cases hs : s.head?.any breaksLine = true
        · rw [if_neg fun h => Bool.false_ne_true ((hnone.mp h).symm.trans hs), if_pos hs]
          rfl
        · rw [if_neg hs, if_pos (hnone.mpr (Bool.eq_false_iff.mpr hs)),
            hnone.mpr (Bool.eq_false_iff.mpr hs)]
          rfl
      exact hrun ▸ hread.of_step _ (quotedStep_breaks rfl hc hbreaks)
    · have hfeed : c ≠ '\n' := by
        rintro rfl
        rcases hother with h | h <;> cases h
      have hnext : c ≠ nextLine := by
        rintro rfl
        rcases hother with h | h <;> cases h
      have hrun : foldBreaks (asBreak c) breaks ++ s' = asBreak c :: settle true s := by
        rw [← hsettle, asBreak_of_breaksLine hc hnext, foldBreaks, if_pos hfeed]
        rfl
      rw [decide_eq_false hfeed, decide_eq_false hnext, if_neg Bool.false_ne_true,
        if_neg Bool.false_ne_true]
      exact hrun ▸ hread.of_step _ (quotedStep_breaks rfl hc hbreaks)

/-- What is written of a text from any point on is read as the settled text. -/
theorem foldText_reads {f : Folding} (hindent : 0 < f.indent) (hrest : rest.head? ≠ some '\'')
    (s : List Char) (previous : Option Char) (column : Nat)
    (hs : needsDouble (previous.toList ++ s) = false) :
    ReadsFolded f.indent previous (foldText f singleQuotedChar previous column s ++ '\'' :: rest) s
      rest := by
  induction s generalizing previous column with
  | nil => exact ReadsFolded.close hindent hrest
  | cons c s ih =>
    have hnext : needsDouble ((some c).toList ++ s) = false := by
      cases previous with
      | none => exact hs
      | some d => exact (needsDouble_cons hs).2.1
    have hbefore (d : Char) (hd : previous = some d) : (d = ' ' → breaksLine c = false) ∧
        (breaksLine d = true → c ≠ ' ') := by
      subst hd
      obtain ⟨-, -, hspace, hbreak⟩ := needsDouble_cons hs
      exact ⟨hspace, fun hd hc => hbreak hd (congrArg some hc)⟩
    obtain ⟨hspecial, -, hspace, hbreak⟩ := needsDouble_cons hnext
    rw [foldText]
    by_cases hc : c = ' '
    · subst hc
      have hprevious : previous.any breaksLine = false := by
        cases previous with
        | none => rfl
        | some d => exact Bool.eq_false_iff.mpr fun hd => (hbefore d rfl).2 hd rfl
      rw [if_pos rfl]
      dsimp only
      split
      · next hfold =>
        rw [Bool.and_eq_true, Bool.and_eq_true] at hfold
        have halone : previous ≠ some ' ' := by
          rintro rfl
          exact absurd hfold.1.1 (by decide)
        have hsome : s.head? ≠ some ' ' := by
          intro hs
          rw [hs] at hfold
          exact absurd hfold.1.2 (by decide)
        rw [List.append_assoc]
        exact ReadsFolded.fold hindent hprevious halone hsome (hspace rfl) (ih (some ' ') _ hnext)
      · exact ReadsFolded.space hprevious (ih (some ' ') _ hnext)
    · rw [if_neg hc]
      by_cases hline : breaksLine c = true
      · have hprevious : previous ≠ some ' ' := by
          rintro rfl
          exact Bool.false_ne_true (((hbefore ' ' rfl).1 rfl).symm.trans hline)
        rw [if_pos hline]
        dsimp only
        have hread := ReadsFolded.lineBreak hline hprevious (ih (some c) f.indent hnext)
        simpa only [behindBreak, List.append_assoc, List.cons_append] using hread
      · have hcalm : isSpacing c = false :=
          isSpacing_of_not_isSpecial hspecial hc (Bool.eq_false_iff.mpr hline)
        rw [if_neg hline, List.append_assoc]
        exact ReadsFolded.char hindent hcalm (ih (some c) _ hnext)

/-- **A text in single quotes is read as the settled text.** -/
theorem readsQuoted_singleQuoted {f : Folding} (hindent : 0 < f.indent)
    (hrest : rest.head? ≠ some '\'') (hs : needsDouble s = false) (column : Nat) :
    ∃ text, singleQuoted f column s ++ rest = '\'' :: text ∧
      ReadsQuoted '\'' text (settle false s) rest := by
  refine ⟨_, ?_, (foldText_reads hindent hrest s none (column + 1) hs).reads rfl⟩
  rw [singleQuoted]
  simp

end GrammarAudit.Yaml
