import GrammarAudit.Proofs.Grammar.Bars

/-!
# What splitting keeps

The alternatives of a rule are the pieces of its body between the separating bars: the bars outside
literals before which as many brackets are opened as closed. Joined again at these bars, the pieces
are the body. All that the alternatives lack of it is the blanks around the pieces, the semicolon at
the end, and a last piece of blanks only.

- `intercalate_splitBars`: the pieces joined again.
- `trimPieces_append`: the alternatives that are made of some pieces.
- `splitAlternatives_pieces`: the alternatives of any text with a colon.
-/

namespace GrammarAudit.Grammar

open Text

/-! ## Joining the pieces again -/

theorem intercalate_consFirst (c : Char) {pieces : List (List Char)} (h : pieces ≠ []) :
    ['|'].intercalate (consFirst c pieces) = c :: ['|'].intercalate pieces := by
  obtain ⟨piece, rest, rfl⟩ := List.exists_cons_of_ne_nil h
  by_cases hrest : rest = []
  · subst hrest
    simp [consFirst, List.intercalate_singleton]
  · rw [consFirst, List.intercalate_cons_of_ne_nil hrest, List.intercalate_cons_of_ne_nil hrest]
    simp

/-- Joined with bars, the pieces are the text that was split. -/
theorem intercalate_splitBars (opened : Option Char) (afterBackslash : Bool) (depth : Int)
    (s : List Char) : ['|'].intercalate (splitBars opened afterBackslash depth s) = s := by
  induction s generalizing opened afterBackslash depth with
  | nil => exact List.intercalate_singleton
  | cons c rest ih =>
    have hcons (opened : Option Char) (depth : Int) :
        ['|'].intercalate (consFirst c (splitBars opened (c = '\\') depth rest)) = c :: rest := by
      rw [intercalate_consFirst c (splitBars_ne_nil _ _ _ _), ih]
    rw [splitBars_cons]
    split
    · split
      · next hbar =>
        rw [List.intercalate_cons_of_ne_nil (splitBars_ne_nil _ _ _ _), ih, hbar.1]
        rfl
      · exact hcons _ _
    · exact hcons _ _

/-! ## Trimming the pieces -/

theorem trim_eq_nil_iff {s : List Char} : trim s = [] ↔ AllBlank s := by
  constructor
  · intro h c hc
    cases hblank : isBlank c with
    | true => rfl
    | false =>
      have hmem := mem_trim_of_not_isBlank hc hblank
      rw [h] at hmem
      cases hmem
  · intro h
    have hstart : trimStart s = [] := by
      rw [← List.append_nil s, trimStart, List.dropWhile_append_of_pos h]
      rfl
    rw [trim, hstart]
    rfl

/-- Every piece is trimmed. The last one is left out if it is blank, and loses its semicolon
otherwise. -/
theorem trimPieces_append (pieces : List (List Char)) (last : List Char) :
    trimPieces (pieces ++ [last]) =
      pieces.map trim ++ (if trim last = [] then [] else [withoutTerminator (trim last)]) := by
  induction pieces with
  | nil => rfl
  | cons piece pieces ih =>
    obtain ⟨next, rest, hcons⟩ := List.exists_cons_of_ne_nil
      (List.append_ne_nil_of_right_ne_nil pieces (List.cons_ne_nil last []))
    rw [List.cons_append, hcons, trimPieces, ← hcons, ih]
    · rfl
    · exact List.cons_ne_nil _ _

/-! ## The alternatives of a text -/

theorem exists_of_getLast?_semicolon {head body : List Char}
    (h : (head ++ ':' :: body).getLast? = some ';') : ∃ rest, body = rest ++ [';'] := by
  rw [List.getLast?_append, List.getLast?_cons, Option.some_or, Option.some_inj] at h
  cases hbody : body.getLast? with
  | none =>
    rw [hbody] at h
    exact absurd h (by decide)
  | some c =>
    rw [hbody] at h
    exact List.getLast?_eq_some_iff.mp (hbody.trans (congrArg some h))

/-- **Splitting loses nothing.** The body of any text with a colon is its pieces joined with bars,
exactly at the bars outside literals before which as many brackets are opened as closed outside
literals. The alternatives are these pieces trimmed, the last one without one semicolon at its end;
only a last piece of blanks is left out, and there is none in a text that ends with a semicolon. -/
theorem splitAlternatives_pieces {head body : List Char} (colon : ':' ∉ head) :
    ∃ pieces last,
      body = ['|'].intercalate (pieces ++ [last]) ∧
      joints (pieces ++ [last]) =
        (bars body).filter (fun i => Brackets.all.depthAt body i = 0) ∧
      (¬AllBlank last → splitAlternatives (head ++ ':' :: body) =
        pieces.map trim ++ [withoutTerminator (trim last)]) ∧
      (AllBlank last → splitAlternatives (head ++ ':' :: body) = pieces.map trim) ∧
      ((head ++ ':' :: body).getLast? = some ';' → ¬AllBlank last) := by
  have hne : splitBars none false 0 body ≠ [] := splitBars_ne_nil _ _ _ _
  obtain ⟨pieces, last, hsplit⟩ : ∃ pieces last, splitBars none false 0 body = pieces ++ [last] :=
    ⟨_, _, (List.dropLast_concat_getLast hne).symm⟩
  have halternatives : splitAlternatives (head ++ ':' :: body) =
      pieces.map trim ++ (if trim last = [] then [] else [withoutTerminator (trim last)]) := by
    rw [splitAlternatives, body?, afterFirst?_of_not_mem colon]
    show trimPieces (splitBars none false 0 body) = _
    rw [hsplit, trimPieces_append]
  refine ⟨pieces, last, ?joined, ?cuts, fun hlast => ?filled, fun hlast => ?blank,
    fun hend hlast => ?stop⟩
  case joined => rw [← hsplit, intercalate_splitBars]
  case cuts =>
    rw [← hsplit, joints_splitBars, balancedBars]
    simp only [Int.zero_add]
    rfl
  case filled => rw [halternatives, if_neg fun h => hlast (trim_eq_nil_iff.mp h)]
  case blank => rw [halternatives, if_pos (trim_eq_nil_iff.mpr hlast), List.append_nil]
  case stop =>
    obtain ⟨rest, rfl⟩ := exists_of_getLast?_semicolon hend
    obtain ⟨piece, hpiece, hmem⟩ := semicolon_mem_getLast?_splitBars 0 none false rest
    rw [hsplit, List.getLast?_concat] at hpiece
    cases hpiece
    have hblank := hlast ';' hmem
    revert hblank
    decide

/-- Bars in literals and in brackets join no pieces, and an empty piece is kept. -/
theorem splitAlternatives_pieces_literal :
    ∃ pieces last,
      " '|' b (c | d) || e ;".toList = ['|'].intercalate (pieces ++ [last]) ∧
      joints (pieces ++ [last]) = [15, 16] ∧
      splitAlternatives "a : '|' b (c | d) || e ;".toList =
        pieces.map trim ++ [withoutTerminator (trim last)] := by
  obtain ⟨pieces, last, hjoined, hcuts, hfilled, -, hstop⟩ :=
    @splitAlternatives_pieces "a ".toList " '|' b (c | d) || e ;".toList (by decide)
  refine ⟨pieces, last, hjoined, ?_, hfilled (hstop (by decide))⟩
  rw [hcuts]
  decide +kernel

end GrammarAudit.Grammar
