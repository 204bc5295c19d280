import GrammarAudit.Proofs.Grammar.Comment
import GrammarAudit.Proofs.Grammar.Enclosure

/-!
# Literals under comment stripping

A text is walked in units: literals, character sets and comments are passed over as wholes. The
two passes over the comments do not walk, so they may cut into a literal. When they do not:

- `LiteralsSurvive`: no character of a literal or of a character set is dropped.
- `MarksOutside`: no comment mark stands in a literal or a character set.
- `OpenersSurvive`: the opening character of each of them is kept.
- `BlocksClear`: no line comment hides the end of a block comment.
- `literalsSurvive_iff`: the exact condition, and the simpler one for texts with clear blocks.
-/

namespace GrammarAudit.Grammar

open Text

/-! ## Units -/

/-- A literal, a character set or a comment. Action blocks are no units: what stands in them is
walked like the rest. -/
def unit? : Pattern := fun lineStart s =>
  if s.head? = some '{' then none else enclosure? lineStart s

/-- The walk over a text. -/
def units (s : List Char) : List Stretch :=
  stretches unit? true s

/-- A unit that is a comment. -/
def isComment (u : Stretch) : Bool :=
  u.matched && u.text.head? = some '/'

/-- A unit that is a literal or a character set. -/
def isEnclosed (u : Stretch) : Bool :=
  u.matched && !isComment u

/-! ## Conditions on a text -/

/-- No character of a literal or of a character set is dropped. -/
def LiteralsSurvive (s : List Char) : Prop :=
  ∀ u ∈ units s, isEnclosed u = true → ∀ i < u.text.length, (kept s)[u.start s + i]? = some true

/-- The opening character of every literal and of every character set is kept. -/
def OpenersSurvive (s : List Char) : Prop :=
  ∀ u ∈ units s, isEnclosed u = true → (kept s)[u.start s]? = some true

/-- No comment mark stands in a literal or in a character set. -/
def MarksOutside (s : List Char) : Prop :=
  ∀ u ∈ units s, isEnclosed u = true →
    ∀ i < u.text.length, opensComment ((u.text ++ u.after).drop i) = false

/-- Whether the first closing mark of a block comment is seen after the line comments are gone,
given the text in the comment. The flag tells whether that text starts in a line comment. A block
comment without a closing mark swallows the rest in any case. -/
def closesInSight : Bool → List Char → Bool
  | _, [] => true
  | true, '*' :: '/' :: _ => false
  | true, '\n' :: rest => closesInSight false rest
  | true, _ :: rest => closesInSight true rest
  | false, '*' :: '/' :: rest => rest.head? != some '/'
  | false, '/' :: '/' :: rest => closesInSight true rest
  | false, _ :: rest => closesInSight false rest

/-- Whether the text does not begin with a block comment whose end is hidden. -/
def blockClear : List Char → Bool
  | '/' :: '*' :: body => closesInSight false body
  | _ => true

/-- No line comment hides the end of a block comment. -/
def BlocksClear (s : List Char) : Prop :=
  ∀ u ∈ units s, blockClear (u.text ++ u.after) = true

instance (s : List Char) : Decidable (LiteralsSurvive s) :=
  inferInstanceAs (Decidable (∀ u ∈ units s, isEnclosed u = true →
    ∀ i < u.text.length, (kept s)[u.start s + i]? = some true))

instance (s : List Char) : Decidable (MarksOutside s) :=
  inferInstanceAs (Decidable (∀ u ∈ units s, isEnclosed u = true →
    ∀ i < u.text.length, opensComment ((u.text ++ u.after).drop i) = false))

instance (s : List Char) : Decidable (BlocksClear s) :=
  inferInstanceAs (Decidable (∀ u ∈ units s, blockClear (u.text ++ u.after) = true))

/-! ## The walk -/

theorem unit?_cons {c : Char} (hc : c ≠ '{') (lineStart : Bool) (s : List Char) :
    unit? lineStart (c :: s) = enclosure? lineStart (c :: s) :=
  if_neg fun h => hc (Option.some.inj h)

theorem unit?_consuming : Pattern.Consuming unit? := by
  intro lineStart c rest tail h
  by_cases hc : c = '{'
  · subst hc
    cases h
  · rw [unit?_cons hc] at h
    exact enclosure?_consuming lineStart c rest tail h

/-- The characters of a unit are characters of the text. -/
theorem start_add_lt {s : List Char} {u : Stretch} (hu : u ∈ units s) {i : Nat}
    (hi : i < u.text.length) : u.start s + i < s.length := by
  have hle := (suffix_of_mem_stretches unit?_consuming hu).length_le
  rw [List.length_append] at hle
  rw [Stretch.start, List.length_append]
  omega

/-- Where no unit begins no comment mark stands. -/
theorem opensComment_of_unit?_eq_none {lineStart : Bool} {s : List Char}
    (h : unit? lineStart s = none) : opensComment s = false := by
  unfold opensComment
  split
  · cases h
  · cases h
  · rfl

/-! ## The exact condition -/

theorem drop_start_add {s : List Char} {u : Stretch} (hu : u ∈ units s) (i : Nat) :
    s.drop (u.start s + i) = (u.text ++ u.after).drop i := by
  rw [← List.drop_drop, drop_start_of_mem_stretches unit?_consuming hu]

/-- Literals survive when their opening characters do and no mark stands in them. -/
theorem literalsSurvive_iff_openers (s : List Char) :
    LiteralsSurvive s ↔ MarksOutside s ∧ OpenersSurvive s := by
  constructor
  · intro h
    refine ⟨fun u hu henc i hi => ?_, fun u hu henc => ?_⟩
    · rw [← drop_start_add hu]
      exact opensComment_of_kept (h u hu henc i hi)
    · exact h u hu henc 0 (text_length_pos_of_mem_stretches unit?_consuming hu)
  · rintro ⟨hmarks, hopeners⟩ u hu henc i hi
    -- from the opening character on, one kept character leads to the next
    induction i with
    | zero => exact hopeners u hu henc
    | succ i ih =>
      refine kept_succ (ih (Nat.lt_of_succ_lt hi)) (start_add_lt hu hi) ?_
      show opensComment (s.drop (u.start s + (i + 1))) = false
      rw [drop_start_add hu]
      exact hmarks u hu henc (i + 1) hi

/-! ## Texts with clear blocks -/

/-- What follows the first closing mark of a block comment. -/
def afterComment (body : List Char) : List Char :=
  (afterFirst? ['*', '/'] body).getD []

theorem afterComment_cons {c : Char} {s : List Char}
    (h : ∀ rest, c = '*' → s = '/' :: rest → False) : afterComment (c :: s) = afterComment s := by
  rw [afterComment, afterFirst?_cons, afterComment]
  intro tail heq
  obtain ⟨hc, hs⟩ := List.cons.inj heq
  exact h tail hc hs

/-- The flags of a text that drop it up to an end of it, from which on they are those of code. -/
def DropsUpTo (tail s : List Char) (flags : List Bool) : Prop :=
  ∃ t, t ++ tail = s ∧ flags = List.replicate t.length false ++ keptFrom false false tail

theorem DropsUpTo.cons {tail s : List Char} {flags : List Bool} (h : DropsUpTo tail s flags)
    (c : Char) : DropsUpTo tail (c :: s) (false :: flags) := by
  obtain ⟨t, rfl, rfl⟩ := h
  exact ⟨c :: t, rfl, rfl⟩

/-- A block comment whose end is in sight is dropped up to its first closing mark. -/
theorem dropsUpTo_afterComment {inLine : Bool} {body : List Char}
    (h : closesInSight inLine body = true) :
    DropsUpTo (afterComment body) body (keptFrom inLine true body) := by
  fun_induction closesInSight inLine body with
  | case1 inLine =>
    refine ⟨[], rfl, ?_⟩
    rw [keptFrom]
    rfl
  | case2 rest => cases h
  | case3 rest ih =>
    rw [afterComment_cons fun _ hc _ => absurd hc (by decide), keptFrom]
    exact (ih h).cons _
  | case4 c rest hclose hfeed ih =>
    rw [afterComment_cons hclose, keptFrom]
    · exact (ih h).cons c
    · exact hfeed
  | case5 rest =>
    -- the closing slash begins no line comment, so both agree on the end
    have hrest : ∀ t, rest = '/' :: t → False := by
      rintro t rfl
      cases h
    rw [show afterComment ('*' :: '/' :: rest) = rest from
      congrArg (Option.getD · []) (afterFirst?_append ['*', '/'] rest (List.cons_ne_nil _ _)),
      keptFrom]
    · exact ⟨['*', '/'], rfl, rfl⟩
    · exact hrest
  | case6 rest ih =>
    rw [afterComment_cons fun _ hc _ => absurd hc (by decide),
      afterComment_cons fun _ hc _ => absurd hc (by decide), keptFrom]
    exact ((ih h).cons _).cons _
  | case7 c rest hclose hline ih =>
    rw [afterComment_cons hclose, keptFrom]
    · exact (ih h).cons c
    · exact hline
    · rintro t hblock
      cases hblock
    · exact fun t _ hc hs => hclose _ hc hs
    · exact fun t _ => hclose t

/-- Flags that drop a text up to an end drop what stands before it. -/
theorem DropsUpTo.flags_eq {tail t : List Char} {flags : List Bool}
    (h : DropsUpTo tail (t ++ tail) flags) :
    flags = List.replicate t.length false ++ keptFrom false false tail := by
  obtain ⟨t', ht, hflags⟩ := h
  rw [hflags, List.append_cancel_right ht]

/-- A comment whose end is in sight is dropped as a whole. -/
theorem dropsUpTo_comment {lineStart : Bool} {rest tail : List Char}
    (h : unit? lineStart ('/' :: rest) = some tail) (hclear : blockClear ('/' :: rest) = true) :
    DropsUpTo tail ('/' :: rest) (keptFrom false false ('/' :: rest)) := by
  rcases rest with - | ⟨d, rest⟩
  · cases h
  · by_cases hline : d = '/'
    · subst hline
      cases h
      have hdrop : DropsUpTo (rest.dropWhile (· != '\n')) rest (keptFrom true false rest) :=
        ⟨rest.takeWhile (· != '\n'), List.takeWhile_append_dropWhile, keptFrom_line rest⟩
      rw [keptFrom]
      exact (hdrop.cons _).cons _
    · by_cases hblock : d = '*'
      · subst hblock
        cases h
        rw [keptFrom]
        exact ((dropsUpTo_afterComment hclear).cons _).cons _
      · have hnone : unit? lineStart ('/' :: d :: rest) = none := by
          rw [unit?_cons (by decide)]
          simp [enclosure?, isQuote, hline, hblock]
        rw [hnone] at h
        cases h

/-- What the stripper keeps of the first unit of a text: all of it, or nothing of a comment. -/
theorem keptFrom_firstStretch {lineStart : Bool} {c : Char} {rest : List Char} {u : Stretch}
    (hu : firstStretch unit? lineStart c rest = u)
    (hmarks : isEnclosed u = true →
      ∀ i < u.text.length, opensComment ((u.text ++ u.after).drop i) = false)
    (hclear : blockClear (u.text ++ u.after) = true) :
    keptFrom false false (c :: rest) =
      List.replicate u.text.length (!isComment u) ++ keptFrom false false u.after := by
  rcases firstStretch_cases unit?_consuming lineStart c rest with
    ⟨hnone, hfirst⟩ | ⟨t, tail, rfl, hsome, hfirst⟩
  · rw [hfirst] at hu
    subst hu
    exact keptFrom_code_cons (opensComment_of_unit?_eq_none hnone)
  · rw [hfirst] at hu
    subst hu
    -- a comment goes as a whole, and a literal or a set is kept because it holds no mark
    by_cases hc : c = '/'
    · subst hc
      exact (dropsUpTo_comment hsome hclear).flags_eq (t := '/' :: t)
    · have hcode : isComment ⟨true, c :: t, tail⟩ = false := by simp [isComment, hc]
      rw [hcode]
      exact keptFrom_code_append (t := c :: t) (hmarks (by rw [isEnclosed, hcode]; rfl))

/-- With clear blocks the stripper keeps every literal and character set that holds no mark. -/
theorem kept_of_blocksClear {lineStart : Bool} {s : List Char}
    (hmarks : ∀ u ∈ stretches unit? lineStart s, isEnclosed u = true →
      ∀ i < u.text.length, opensComment ((u.text ++ u.after).drop i) = false)
    (hclear : ∀ u ∈ stretches unit? lineStart s, blockClear (u.text ++ u.after) = true)
    {u : Stretch} (hu : u ∈ stretches unit? lineStart s) (henc : isEnclosed u = true) {i : Nat}
    (hi : i < u.text.length) : (keptFrom false false s)[u.start s + i]? = some true := by
  -- unit by unit: between two units the stripper is in code again
  fun_induction stretches unit? lineStart s with
  | case1 => cases hu
  | case2 lineStart c rest first ih =>
    have happ : first.text ++ first.after = c :: rest :=
      firstStretch_append unit?_consuming lineStart c rest
    have hflags := keptFrom_firstStretch (u := first) rfl (hmarks first List.mem_cons_self)
      (hclear first List.mem_cons_self)
    rw [hflags]
    rcases List.mem_cons.mp hu with rfl | hu
    · have hstart : first.start (c :: rest) = 0 := by rw [Stretch.start, happ, Nat.sub_self]
      have hcode : isComment first = false := by
        rw [isEnclosed, Bool.and_eq_true, Bool.not_eq_true'] at henc
        exact henc.2
      rw [hstart, Nat.zero_add, List.getElem?_append_left (by simpa using hi), hcode,
        List.getElem?_replicate, if_pos hi]
      rfl
    · have hstart : u.start (c :: rest) = first.text.length + u.start first.after := by
        rw [← happ, start_append unit?_consuming hu]
      rw [hstart, Nat.add_assoc, List.getElem?_append_right (by simp), List.length_replicate,
        Nat.add_sub_cancel_left]
      exact ih (fun v hv => hmarks v (List.mem_cons_of_mem _ hv))
        (fun v hv => hclear v (List.mem_cons_of_mem _ hv)) hu

theorem openersSurvive_of_blocksClear {s : List Char} (hclear : BlocksClear s)
    (hmarks : MarksOutside s) : OpenersSurvive s := by
  intro u hu henc
  exact kept_of_blocksClear hmarks hclear hu henc
    (text_length_pos_of_mem_stretches unit?_consuming hu)

/-- **When stripping respects literals**: exactly when no mark stands in a literal or a character
set and the opening character of each is kept. In a text with clear blocks the marks alone decide.
A text is left alone only when no mark stands anywhere in it, whatever holds the mark. -/
theorem literalsSurvive_iff (s : List Char) :
    stripComments s = keep s (kept s) ∧
    (LiteralsSurvive s ↔ MarksOutside s ∧ OpenersSurvive s) ∧
    (BlocksClear s → (LiteralsSurvive s ↔ MarksOutside s)) ∧
    (stripComments s = s ↔ ∀ i < s.length, opensComment (s.drop i) = false) := by
  have hiff := literalsSurvive_iff_openers s
  refine ⟨stripComments_eq_keep s, hiff, fun hclear => ?_, stripComments_eq_self_iff⟩
  constructor
  · intro h
    exact (hiff.mp h).1
  · intro hmarks
    exact hiff.mpr ⟨hmarks, openersSurvive_of_blocksClear hclear hmarks⟩

/-- A text with a clear block and no mark in a literal, in which every literal survives. -/
theorem literalsSurvive_iff_clear :
    BlocksClear "a : '/' /* b */ [*/] ; // c".toList ∧
      LiteralsSurvive "a : '/' /* b */ [*/] ; // c".toList :=
  have hclear : BlocksClear "a : '/' /* b */ [*/] ; // c".toList := by decide +kernel
  ⟨hclear, ((literalsSurvive_iff _).2.2.1 hclear).mpr (by decide +kernel)⟩

/-- A literal that is cut in the middle, although comment marks stand in literals only. -/
theorem literal_cut_by_stripComments :
    ¬LiteralsSurvive "A : '//' ;\nb : A ;".toList ∧
      stripComments "A : '//' ;\nb : A ;".toList = "A : '\nb : A ;".toList := by
  decide +kernel

end GrammarAudit.Grammar
