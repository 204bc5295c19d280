import GrammarAudit.Grammar.Comment

/-!
# Comment stripping, character by character

The two passes over the comments as one: which characters of a text they keep. Line comments are
dropped first, so a slash that begins one closes no block comment.

- `mem_of_mem_dropLineComments`, `mem_of_mem_dropBlockComments`: a pass adds no characters.
- `kept`: for each character whether the two passes keep it.
- `stripComments_eq_keep`: stripping leaves the kept characters.
- `opensComment`: the places at which a comment mark stands.
- `opensComment_of_kept`, `kept_succ`: no mark is kept, and what is kept goes on up to a mark.
- `stripComments_eq_self_iff`: the texts that stripping leaves alone are those without a mark.
-/

namespace GrammarAudit.Grammar

/-! ## Dropped characters -/

section Dropping

variable {c : Char} {s : List Char}

theorem mem_of_mem_dropLineComments {inComment : Bool} (h : c ∈ dropLineComments inComment s) :
    c ∈ s := by
  fun_induction dropLineComments inComment s with
  | case1 => cases h
  | case2 rest ih => exact List.mem_cons.mpr ((List.mem_cons.mp h).imp_right ih)
  | case3 d rest _ ih => exact List.mem_cons_of_mem _ (ih h)
  | case4 rest ih => exact List.mem_cons_of_mem _ (List.mem_cons_of_mem _ (ih h))
  | case5 d rest _ ih => exact List.mem_cons.mpr ((List.mem_cons.mp h).imp_right ih)

theorem mem_of_mem_dropBlockComments {inComment : Bool} (h : c ∈ dropBlockComments inComment s) :
    c ∈ s := by
  fun_induction dropBlockComments inComment s with
  | case1 => cases h
  | case2 rest ih => exact List.mem_cons_of_mem _ (List.mem_cons_of_mem _ (ih h))
  | case3 d rest _ ih => exact List.mem_cons_of_mem _ (ih h)
  | case4 rest ih => exact List.mem_cons_of_mem _ (List.mem_cons_of_mem _ (ih h))
  | case5 d rest _ ih => exact List.mem_cons.mpr ((List.mem_cons.mp h).imp_right ih)

end Dropping

/-! ## The two passes as one -/

/-- For each character whether the two passes keep it. The flags tell whether the text starts in a
line comment and whether it starts in a block comment. -/
def keptFrom : Bool → Bool → List Char → List Bool
  | _, _, [] => []
  | true, inBlock, '\n' :: rest => (!inBlock) :: keptFrom false inBlock rest
  | true, inBlock, _ :: rest => false :: keptFrom true inBlock rest
  | false, inBlock, '/' :: '/' :: rest => false :: false :: keptFrom true inBlock rest
  | false, false, '/' :: '*' :: rest => false :: false :: keptFrom false true rest
  | false, true, '*' :: '/' :: '/' :: rest => false :: false :: false :: keptFrom true true rest
  | false, true, '*' :: '/' :: rest => false :: false :: keptFrom false false rest
  | false, inBlock, _ :: rest => (!inBlock) :: keptFrom false inBlock rest

/-- For each character of a text whether `stripComments` keeps it. -/
def kept (s : List Char) : List Bool :=
  keptFrom false false s

/-- The characters of a text that are flagged. -/
def keep : List Char → List Bool → List Char
  | c :: s, true :: flags => c :: keep s flags
  | _ :: s, false :: flags => keep s flags
  | _, _ => []

@[simp] theorem keep_cons (c : Char) (s : List Char) (flag : Bool) (flags : List Bool) :
    keep (c :: s) (flag :: flags) = if flag then c :: keep s flags else keep s flags := by
  cases flag <;> rfl

/-! ## The passes on one character -/

theorem dropLineComments_true_cons {c : Char} (hc : c ≠ '\n') (s : List Char) :
    dropLineComments true (c :: s) = dropLineComments true s := by
  rw [dropLineComments]
  simpa using hc

theorem dropLineComments_false_cons {c : Char} {s : List Char}
    (h : ∀ rest, c = '/' → s = '/' :: rest → False) :
    dropLineComments false (c :: s) = c :: dropLineComments false s := by
  rw [dropLineComments]
  exact h

theorem dropBlockComments_true_cons {c : Char} {s : List Char}
    (h : ∀ rest, c = '*' → s = '/' :: rest → False) :
    dropBlockComments true (c :: s) = dropBlockComments true s := by
  rw [dropBlockComments]
  exact h

theorem dropBlockComments_false_cons {c : Char} {s : List Char}
    (h : ∀ rest, c = '/' → s = '*' :: rest → False) :
    dropBlockComments false (c :: s) = c :: dropBlockComments false s := by
  rw [dropBlockComments]
  exact h

/-- What a line comment leaves behind begins with its line feed. -/
theorem head_dropLineComments_true {s t : List Char} {d : Char}
    (h : dropLineComments true s = d :: t) : d = '\n' := by
  induction s with
  | nil => cases h
  | cons c s ih =>
    by_cases hc : c = '\n'
    · rw [hc, dropLineComments] at h
      exact (List.cons.inj h).1.symm
    · rw [dropLineComments_true_cons hc] at h
      exact ih h

/-- The first character that is left is the first of the text, unless it is the end of a line. -/
theorem head_dropLineComments_false {s t : List Char} {d : Char}
    (h : dropLineComments false s = d :: t) (hd : d ≠ '\n') : ∃ rest, s = d :: rest := by
  rcases s with - | ⟨c, s⟩
  · cases h
  · by_cases hmark : ∃ rest, c = '/' ∧ s = '/' :: rest
    · obtain ⟨rest, rfl, rfl⟩ := hmark
      rw [dropLineComments] at h
      exact absurd (head_dropLineComments_true h) hd
    · rw [dropLineComments_false_cons fun rest hc hs => hmark ⟨rest, hc, hs⟩] at h
      exact ⟨s, by rw [(List.cons.inj h).1]⟩

/-- Both passes keep the flagged characters. -/
theorem dropBlockComments_dropLineComments (inLine inBlock : Bool) (s : List Char) :
    dropBlockComments inBlock (dropLineComments inLine s) = keep s (keptFrom inLine inBlock s) := by
  -- along the one pass: each case runs both passes over the characters that it consumes
  fun_induction keptFrom inLine inBlock s with
  | case1 inLine inBlock =>
    rw [dropLineComments, dropBlockComments]
    rfl
  | case2 inBlock rest ih =>
    rw [dropLineComments, keep_cons, ← ih]
    cases inBlock with
    | false => exact dropBlockComments_false_cons fun _ h _ => absurd h (by decide)
    | true => exact dropBlockComments_true_cons fun _ h _ => absurd h (by decide)
  | case3 inBlock c rest hc ih =>
    rw [dropLineComments_true_cons hc]
    exact ih
  | case4 inBlock rest ih =>
    rw [dropLineComments]
    exact ih
  | case5 rest ih =>
    rw [dropLineComments_false_cons fun _ _ h => absurd (List.cons.inj h).1 (by decide),
      dropLineComments_false_cons fun _ h _ => absurd h (by decide), dropBlockComments]
    exact ih
  | case6 rest ih =>
    -- the slash begins a line comment, so that the star before it closes nothing
    rw [dropLineComments_false_cons fun _ h _ => absurd h (by decide), dropLineComments,
      dropBlockComments_true_cons fun _ _ h => absurd (head_dropLineComments_true h) (by decide)]
    exact ih
  | case7 rest hrest ih =>
    rw [dropLineComments_false_cons fun _ h _ => absurd h (by decide),
      dropLineComments_false_cons fun t _ h => hrest t h, dropBlockComments]
    exact ih
  | case8 inBlock c rest hline hopen _ hclose ih =>
    -- a mark across the end of a dropped line comment would need a line feed in it
    rw [dropLineComments_false_cons fun t hc h => hline t hc h, keep_cons, ← ih]
    cases inBlock with
    | false =>
      refine dropBlockComments_false_cons fun t hc h => ?_
      obtain ⟨u, hu⟩ := head_dropLineComments_false h (by decide)
      exact hopen u rfl hc hu
    | true =>
      refine dropBlockComments_true_cons fun t hc h => ?_
      obtain ⟨u, hu⟩ := head_dropLineComments_false h (by decide)
      exact hclose u rfl hc hu

/-- Stripping leaves the kept characters. -/
theorem stripComments_eq_keep (s : List Char) : stripComments s = keep s (kept s) :=
  dropBlockComments_dropLineComments false false s

/-! ## Comment marks -/

/-- Whether a comment mark stands at the start of a text. -/
def opensComment : List Char → Bool
  | '/' :: '/' :: _ => true
  | '/' :: '*' :: _ => true
  | _ => false

/-- In code a character is kept unless it begins a mark. -/
theorem keptFrom_code_cons {c : Char} {s : List Char} (h : opensComment (c :: s) = false) :
    keptFrom false false (c :: s) = true :: keptFrom false false s := by
  rw [keptFrom]
  · rfl
  · rintro rest rfl rfl
    cases h
  · rintro rest - rfl rfl
    cases h
  · rintro rest hblock
    cases hblock
  · rintro rest hblock
    cases hblock

/-- In code a part without marks is kept. -/
theorem keptFrom_code_append {t s : List Char}
    (h : ∀ i < t.length, opensComment ((t ++ s).drop i) = false) :
    keptFrom false false (t ++ s) = List.replicate t.length true ++ keptFrom false false s := by
  induction t with
  | nil => rfl
  | cons c t ih =>
    have hc : opensComment (c :: (t ++ s)) = false := h 0 (Nat.zero_lt_succ _)
    rw [List.cons_append, keptFrom_code_cons hc, ih fun i hi => h (i + 1) (Nat.succ_lt_succ hi)]
    rfl

/-- A line comment is dropped up to its line feed. -/
theorem keptFrom_line (s : List Char) :
    keptFrom true false s =
      List.replicate (s.takeWhile (· != '\n')).length false ++
        keptFrom false false (s.dropWhile (· != '\n')) := by
  induction s with
  | nil => rfl
  | cons c s ih =>
    by_cases hc : c = '\n'
    · subst hc
      rw [keptFrom, List.takeWhile_cons_of_neg (by decide), List.dropWhile_cons_of_neg (by decide),
        keptFrom_code_cons rfl]
      rfl
    · have hne : (c != '\n') = true := bne_iff_ne.mpr hc
      rw [keptFrom, ih, List.takeWhile_cons_of_pos (p := (· != '\n')) hne,
        List.dropWhile_cons_of_pos (p := (· != '\n')) hne]
      · rfl
      · exact hc

theorem keptFrom_code_zero {s : List Char} (hs : 0 < s.length) (h : opensComment s = false) :
    (keptFrom false false s)[0]? = some true := by
  rcases s with - | ⟨c, s⟩
  · cases hs
  · rw [keptFrom_code_cons h]
    rfl

/-- Flags that keep the first character of no mark and, after a kept character, every character
up to the next mark. -/
def RespectsMarks (s : List Char) (flags : List Bool) : Prop :=
  ∀ i, flags[i]? = some true → opensComment (s.drop i) = false ∧
    (i + 1 < s.length → opensComment (s.drop (i + 1)) = false → flags[i + 1]? = some true)

theorem RespectsMarks.cons_false {s : List Char} {flags : List Bool} (h : RespectsMarks s flags)
    (c : Char) : RespectsMarks (c :: s) (false :: flags) := by
  intro i hi
  rcases i with - | i
  · cases hi
  · obtain ⟨hmark, hnext⟩ := h i hi
    exact ⟨hmark, fun hlen hclear => hnext (Nat.lt_of_succ_lt_succ hlen) hclear⟩

/-- A kept character in code is followed by code. -/
theorem RespectsMarks.cons_true {s : List Char} (h : RespectsMarks s (keptFrom false false s))
    {c : Char} (hc : opensComment (c :: s) = false) :
    RespectsMarks (c :: s) (true :: keptFrom false false s) := by
  intro i hi
  rcases i with - | i
  · exact ⟨hc, fun hlen hclear => keptFrom_code_zero (Nat.lt_of_succ_lt_succ hlen) hclear⟩
  · obtain ⟨hmark, hnext⟩ := h i hi
    exact ⟨hmark, fun hlen hclear => hnext (Nat.lt_of_succ_lt_succ hlen) hclear⟩

theorem opensComment_cons_eq_false {c : Char} {s : List Char}
    (hline : ∀ rest, c = '/' → s = '/' :: rest → False)
    (hblock : ∀ rest, c = '/' → s = '*' :: rest → False) : opensComment (c :: s) = false := by
  unfold opensComment
  split
  · next rest heq => exact (hline rest (List.cons.inj heq).1 (List.cons.inj heq).2).elim
  · next rest heq => exact (hblock rest (List.cons.inj heq).1 (List.cons.inj heq).2).elim
  · rfl

/-- Whatever the text starts in, no mark is kept and what is kept goes on up to a mark. -/
theorem keptFrom_respectsMarks (inLine inBlock : Bool) (s : List Char) :
    RespectsMarks s (keptFrom inLine inBlock s) := by
  fun_induction keptFrom inLine inBlock s with
  | case1 inLine inBlock => exact fun i hi => nomatch hi
  | case2 inBlock rest ih =>
    cases inBlock with
    | true => exact ih.cons_false _
    | false => exact ih.cons_true rfl
  | case3 inBlock c rest hc ih => exact ih.cons_false c
  | case4 inBlock rest ih => exact (ih.cons_false _).cons_false _
  | case5 rest ih => exact (ih.cons_false _).cons_false _
  | case6 rest ih => exact ((ih.cons_false _).cons_false _).cons_false _
  | case7 rest hrest ih => exact (ih.cons_false _).cons_false _
  | case8 inBlock c rest hline hopen _ hclose ih =>
    -- only in code a character is kept, and code goes on after it
    cases inBlock with
    | true => exact ih.cons_false c
    | false => exact ih.cons_true (opensComment_cons_eq_false hline fun t => hopen t rfl)

/-- The first character of a mark is never kept. -/
theorem opensComment_of_kept {s : List Char} {i : Nat} (hi : (kept s)[i]? = some true) :
    opensComment (s.drop i) = false :=
  (keptFrom_respectsMarks false false s i hi).1

/-- What is kept goes on up to the next mark. -/
theorem kept_succ {s : List Char} {i : Nat} (hi : (kept s)[i]? = some true)
    (hlen : i + 1 < s.length) (hclear : opensComment (s.drop (i + 1)) = false) :
    (kept s)[i + 1]? = some true :=
  (keptFrom_respectsMarks false false s i hi).2 hlen hclear

/-! ## Texts without a mark -/

theorem keep_length_le (s : List Char) (flags : List Bool) :
    (keep s flags).length ≤ s.length := by
  fun_induction keep s flags with
  | case1 c s flags ih => exact Nat.succ_le_succ ih
  | case2 c s flags ih => exact Nat.le_succ_of_le ih
  | case3 => exact Nat.zero_le _

/-- Only flags that are all set keep a whole text. -/
theorem flag_of_keep_eq_self {s : List Char} {flags : List Bool} (h : keep s flags = s) {i : Nat}
    (hi : i < s.length) : flags[i]? = some true := by
  fun_induction keep s flags generalizing i with
  | case1 c s flags ih =>
    rcases i with - | i
    · rfl
    · exact ih (List.cons.inj h).2 (Nat.lt_of_succ_lt_succ hi)
  | case2 c s flags ih =>
    have hlen := keep_length_le s flags
    rw [h] at hlen
    exact absurd hlen (Nat.not_succ_le_self _)
  | case3 s flags htrue hfalse =>
    rw [← h] at hi
    cases hi

theorem keep_replicate_true (s : List Char) : keep s (List.replicate s.length true) = s := by
  induction s with
  | nil => rfl
  | cons c s ih =>
    rw [List.length_cons, List.replicate_succ, keep_cons, if_pos rfl, ih]

/-- A text without a mark has no line comments. -/
theorem withoutLineComments_eq_self {s : List Char}
    (h : ∀ i < s.length, opensComment (s.drop i) = false) : withoutLineComments s = s := by
  rw [withoutLineComments]
  induction s with
  | nil => rfl
  | cons c s ih =>
    have hc : opensComment (c :: s) = false := h 0 (Nat.zero_lt_succ _)
    rw [dropLineComments_false_cons, ih fun i hi => h (i + 1) (Nat.succ_lt_succ hi)]
    rintro rest rfl rfl
    cases hc

/-- **Which texts stripping leaves alone**: exactly those in which no mark stands, not even inside
a literal. -/
theorem stripComments_eq_self_iff {s : List Char} :
    stripComments s = s ↔ ∀ i, i < s.length → opensComment (s.drop i) = false := by
  rw [stripComments_eq_keep]
  constructor
  · intro h i hi
    exact opensComment_of_kept (flag_of_keep_eq_self h hi)
  · intro h
    have hall := keptFrom_code_append (t := s) (s := []) (by rwa [List.append_nil])
    rw [List.append_nil] at hall
    rw [kept, hall, keptFrom, List.append_nil, keep_replicate_true]

end GrammarAudit.Grammar
