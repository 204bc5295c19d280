import GrammarAudit.Proofs.Grammar.LiteralSurvival

/-!
# Comments in one pass

Read from left to right, a text is code and comments, and what is kept is the code. The two passes
of the stripper do not always agree: the first one takes a double slash for a line comment even
inside a block comment, and if it drops the closing mark of the block in doing so, the second one
goes on to some later mark.

- `comment?`, `withoutComments`: the comments of a text in one pass, and the text without them.
- `walked`: for each character whether the one pass keeps it.
- `codeInLine`: for each character whether the first of the two passes keeps it.
- `LosesNothing`: behind every end that is hidden no code is lost.
- `kept_eq_walked_iff`: the two ways agree exactly then.
-/

namespace GrammarAudit.Grammar

open Text

/-! ## One pass -/

/-- A line comment up to its line feed, or a block comment up to and with its first closing mark.
One that is not closed runs to the end. -/
def comment? : Pattern := fun _ s =>
  match s with
  | '/' :: '/' :: rest => some (rest.dropWhile (· != '\n'))
  | '/' :: '*' :: rest => some (afterComment rest)
  | _ => none

/-- A text without its comments. -/
def withoutComments (s : List Char) : List Char :=
  eraseMatches comment? s

/-- For each character whether the one pass keeps it, given whether a line starts. -/
def walkedFrom (lineStart : Bool) (s : List Char) : List Bool :=
  (stretches comment? lineStart s).flatMap fun u => List.replicate u.text.length (!u.matched)

/-- For each character of a text whether the one pass keeps it. -/
def walked (s : List Char) : List Bool :=
  walkedFrom true s

theorem afterComment_suffix (body : List Char) : afterComment body <:+ body := by
  unfold afterComment
  cases h : afterFirst? ['*', '/'] body with
  | none => exact List.nil_suffix
  | some tail => exact afterFirst?_suffix h

theorem comment?_consuming : Pattern.Consuming comment? := by
  intro lineStart c rest tail h
  unfold comment? at h
  split at h
  · next t heq =>
    obtain ⟨rfl, rfl⟩ := List.cons.inj heq
    cases h
    exact (List.dropWhile_suffix _).trans (List.suffix_cons _ t)
  · next t heq =>
    obtain ⟨rfl, rfl⟩ := List.cons.inj heq
    cases h
    exact (afterComment_suffix t).trans (List.suffix_cons _ t)
  · cases h

/-- A text begins with a comment exactly if it begins with a mark. -/
theorem comment?_eq_none_iff {lineStart : Bool} {s : List Char} :
    comment? lineStart s = none ↔ opensComment s = false := by
  unfold comment? opensComment
  split <;> simp

theorem keep_append {s t : List Char} {flags flags' : List Bool} (h : flags.length = s.length) :
    keep (s ++ t) (flags ++ flags') = keep s flags ++ keep t flags' := by
  induction s generalizing flags with
  | nil =>
    rw [List.length_eq_zero_iff.mp h]
    rfl
  | cons c s ih =>
    obtain ⟨flag, flags, rfl⟩ := List.exists_cons_of_length_eq_add_one h
    rw [List.cons_append, List.cons_append, keep_cons, keep_cons,
      ih (Nat.succ.inj h)]
    split <;> rfl

theorem keep_replicate_false (s : List Char) : keep s (List.replicate s.length false) = [] := by
  induction s with
  | nil => rfl
  | cons c s ih => exact ih

/-- The one pass leaves the characters that it keeps. -/
theorem withoutComments_eq_keep (s : List Char) : withoutComments s = keep s (walked s) := by
  have hstretch (u : Stretch) : keep u.text (List.replicate u.text.length (!u.matched)) =
      if u.matched then [] else u.text := by
    cases u.matched with
    | true => exact keep_replicate_false u.text
    | false => exact keep_replicate_true u.text
  have hall (l : List Stretch) : keep (l.flatMap Stretch.text)
      (l.flatMap fun u => List.replicate u.text.length (!u.matched)) =
        l.flatMap fun u => if u.matched then [] else u.text := by
    induction l with
    | nil => rfl
    | cons u l ih =>
      rw [List.flatMap_cons, List.flatMap_cons, List.flatMap_cons, keep_append (by simp), hstretch,
        ih]
  rw [withoutComments, eraseMatches, replaceMatches_eq_flatMap, ← hall,
    flatMap_text_stretches comment?_consuming]
  rfl

/-! ## The first of the two passes -/

/-- For each character whether the pass over line comments keeps it. The flag tells whether the text
starts in one. -/
def codeInLineFrom : Bool → List Char → List Bool
  | _, [] => []
  | true, '\n' :: rest => true :: codeInLineFrom false rest
  | true, _ :: rest => false :: codeInLineFrom true rest
  | false, '/' :: '/' :: rest => false :: false :: codeInLineFrom true rest
  | false, _ :: rest => true :: codeInLineFrom false rest

/-- For each character of a text whether the pass over line comments keeps it. -/
def codeInLine (s : List Char) : List Bool :=
  codeInLineFrom false s

/-- The pass over line comments leaves the characters that it keeps. -/
theorem dropLineComments_eq_keep (inLine : Bool) (s : List Char) :
    dropLineComments inLine s = keep s (codeInLineFrom inLine s) := by
  fun_induction codeInLineFrom inLine s with
  | case1 inLine => rw [dropLineComments]; rfl
  | case2 rest ih => rw [dropLineComments, ih]; rfl
  | case3 c rest hc ih => rw [dropLineComments_true_cons hc, ih]; rfl
  | case4 rest ih => rw [dropLineComments, ih]; rfl
  | case5 c rest h ih => rw [dropLineComments_false_cons fun t hc hs => h t hc hs, ih]; rfl

/-! ## Hidden ends -/

/-- A stretch that is a block comment. -/
def isBlockComment (u : Stretch) : Bool :=
  u.matched && u.text[1]? = some '*'

/-- A block comment is closed by a slash that the pass over line comments drops, because a line
comment begins before it or with it. -/
def HiddenEnd (s : List Char) (u : Stretch) : Prop :=
  isBlockComment u = true ∧ (codeInLine s)[u.start s + (u.text.length - 1)]? = some false

/-- What holds no code up to where a block comment can next be closed: nothing, another block
comment, or a line comment that ends the text. -/
def NoCodeAhead (s : List Char) : Prop :=
  s = [] ∨ ['/', '*'] <+: s ∨ (['/', '/'] <+: s ∧ '\n' ∉ s)

/-- Behind every hidden end no code is lost. -/
def LosesNothing (s : List Char) : Prop :=
  ∀ u ∈ stretches comment? true s, HiddenEnd s u → NoCodeAhead u.after

instance (s : List Char) : Decidable (NoCodeAhead s) :=
  inferInstanceAs (Decidable (s = [] ∨ ['/', '*'] <+: s ∨ (['/', '/'] <+: s ∧ '\n' ∉ s)))

instance (s : List Char) (u : Stretch) : Decidable (HiddenEnd s u) :=
  inferInstanceAs (Decidable (isBlockComment u = true ∧
    (codeInLine s)[u.start s + (u.text.length - 1)]? = some false))

instance (s : List Char) : Decidable (LosesNothing s) :=
  inferInstanceAs (Decidable (∀ u ∈ stretches comment? true s, HiddenEnd s u → NoCodeAhead u.after))

/-! ## Over one comment -/

/-- Both ways pass a comment. The flags tell whether the first pass is in a line comment, and the
second one in a block, where the one pass is in code: before the comment and after it. A block
comment leads there exactly if its last slash is dropped. -/
structure PassesComment (before after : Bool) (text tail : List Char) : Prop where
  kept : keptFrom before before (text ++ tail) =
    List.replicate text.length false ++ keptFrom after after tail
  inLine : ∃ flags, flags.length = text.length ∧
    codeInLineFrom before (text ++ tail) = flags ++ codeInLineFrom after tail ∧
      (tail ≠ [] → text[1]? = some '*' → flags[text.length - 1]? = some (!after))

theorem keptFrom_inLine_cons {c : Char} (hc : c ≠ '\n') (inBlock : Bool) (s : List Char) :
    keptFrom true inBlock (c :: s) = false :: keptFrom true inBlock s := by
  rw [keptFrom]
  exact hc

theorem codeInLineFrom_inLine_cons {c : Char} (hc : c ≠ '\n') (s : List Char) :
    codeInLineFrom true (c :: s) = false :: codeInLineFrom true s := by
  rw [codeInLineFrom]
  exact hc

theorem codeInLineFrom_code_cons {c : Char} {s : List Char}
    (h : ∀ t, c = '/' → s = '/' :: t → False) :
    codeInLineFrom false (c :: s) = true :: codeInLineFrom false s := by
  rw [codeInLineFrom]
  exact h

/-- A line without its line feed, in a line comment. -/
theorem inLine_append {t : List Char} (ht : '\n' ∉ t) (inBlock : Bool) (s : List Char) :
    keptFrom true inBlock (t ++ s) = List.replicate t.length false ++ keptFrom true inBlock s ∧
      codeInLineFrom true (t ++ s) = List.replicate t.length false ++ codeInLineFrom true s := by
  induction t with
  | nil => exact ⟨rfl, rfl⟩
  | cons c t ih =>
    have hc : c ≠ '\n' := fun h => ht (h ▸ List.mem_cons_self)
    obtain ⟨hkept, hline⟩ := ih (List.not_mem_of_not_mem_cons ht)
    rw [List.cons_append, keptFrom_inLine_cons hc, codeInLineFrom_inLine_cons hc, hkept, hline]
    exact ⟨rfl, rfl⟩

/-- A line comment is passed up to its line feed, where both passes go on as before. -/
theorem passesComment_line (before : Bool) {t tail : List Char} (ht : '\n' ∉ t)
    (htail : tail = [] ∨ ∃ rest, tail = '\n' :: rest) :
    PassesComment before before ('/' :: '/' :: t) tail := by
  have hslash : '/' ≠ '\n' := by decide
  have hkept : keptFrom true before tail = keptFrom before before tail := by
    rcases htail with rfl | ⟨rest, rfl⟩
    · rw [keptFrom, keptFrom]
    · cases before with
      | true => rfl
      | false =>
        rw [keptFrom, keptFrom_code_cons rfl]
        rfl
  have hline : codeInLineFrom true tail = codeInLineFrom before tail := by
    rcases htail with rfl | ⟨rest, rfl⟩
    · rw [codeInLineFrom, codeInLineFrom]
    · cases before with
      | true => rfl
      | false =>
        rw [codeInLineFrom, codeInLineFrom_code_cons fun _ h _ => absurd h (by decide)]
  obtain ⟨hkeptAll, hlineAll⟩ := inLine_append ht before tail
  refine ⟨?kept, List.replicate (t.length + 2) false, by simp, ?inLine, fun _ h => by cases h⟩
  case kept =>
    have hopen : keptFrom before before ('/' :: '/' :: (t ++ tail)) =
        false :: false :: keptFrom true before (t ++ tail) := by
      cases before with
      | true => rw [keptFrom_inLine_cons hslash, keptFrom_inLine_cons hslash]
      | false => rw [keptFrom]
    show keptFrom before before ('/' :: '/' :: (t ++ tail)) = _
    rw [hopen, hkeptAll, hkept]
    rfl
  case inLine =>
    have hopen : codeInLineFrom before ('/' :: '/' :: (t ++ tail)) =
        false :: false :: codeInLineFrom true (t ++ tail) := by
      cases before with
      | true => rw [codeInLineFrom_inLine_cons hslash, codeInLineFrom_inLine_cons hslash]
      | false => rw [codeInLineFrom]
    show codeInLineFrom before ('/' :: '/' :: (t ++ tail)) = _
    rw [hopen, hlineAll, hline]
    rfl

/-- The inside of a block comment is passed up to its first closing mark: by the one pass, and by
both passes with the flag of `PassesComment` behind it. -/
def PassesBlock (inLine after : Bool) (tail body : List Char) : Prop :=
  ∃ t flags, t ++ tail = body ∧ flags.length = t.length ∧
    keptFrom inLine true body = List.replicate t.length false ++ keptFrom after after tail ∧
    codeInLineFrom inLine body = flags ++ codeInLineFrom after tail ∧
    (tail ≠ [] → t ≠ [] ∧ flags.getLast? = some (!after))

theorem PassesBlock.cons {inLine inLine' after : Bool} {tail body : List Char}
    (h : PassesBlock inLine' after tail body) {c : Char} {flag : Bool}
    (hkept : keptFrom inLine true (c :: body) = false :: keptFrom inLine' true body)
    (hline : codeInLineFrom inLine (c :: body) = flag :: codeInLineFrom inLine' body) :
    PassesBlock inLine after tail (c :: body) := by
  obtain ⟨t, flags, rfl, hlength, hkeptAll, hlineAll, hlast⟩ := h
  refine ⟨c :: t, flag :: flags, rfl, by simp [hlength], ?_, ?_,
    fun htail => ⟨List.cons_ne_nil _ _, ?_⟩⟩
  · rw [hkept, hkeptAll]
    rfl
  · rw [hline, hlineAll]
    rfl
  · obtain ⟨hne, hflag⟩ := hlast htail
    rw [List.getLast?_cons_of_ne_nil, hflag]
    exact fun hnil => hne (List.length_eq_zero_iff.mp (hlength.symm.trans (by rw [hnil]; rfl)))

/-- The closing mark itself is passed. -/
theorem PassesBlock.close {inLine after : Bool} (first : Bool) {rest : List Char}
    (hkept : keptFrom inLine true ('*' :: '/' :: rest) =
      false :: false :: keptFrom after after rest)
    (hline : codeInLineFrom inLine ('*' :: '/' :: rest) =
      first :: (!after) :: codeInLineFrom after rest) :
    PassesBlock inLine after rest ('*' :: '/' :: rest) :=
  ⟨['*', '/'], [first, !after], rfl, rfl, hkept, hline, fun _ => ⟨List.cons_ne_nil _ _, rfl⟩⟩

/-- In a line comment the closing mark is passed, and that comment goes on behind it. -/
theorem passesBlock_close_inLine (rest : List Char) :
    PassesBlock true true rest ('*' :: '/' :: rest) := by
  have hslash : '/' ≠ '\n' := by decide
  have hstar : '*' ≠ '\n' := by decide
  refine PassesBlock.close false ?_ ?_
  · rw [keptFrom_inLine_cons hstar, keptFrom_inLine_cons hslash]
  · rw [codeInLineFrom_inLine_cons hstar, codeInLineFrom_inLine_cons hslash]
    rfl

/-- The star of a closing mark begins no line comment. -/
theorem codeInLineFrom_star (s : List Char) :
    codeInLineFrom false ('*' :: s) = true :: codeInLineFrom false s :=
  codeInLineFrom_code_cons fun _ h _ => absurd h (by decide)

/-- Before another slash, the closing one begins a line comment. -/
theorem passesBlock_close_slash (t : List Char) :
    PassesBlock false true ('/' :: t) ('*' :: '/' :: '/' :: t) := by
  have hslash : '/' ≠ '\n' := by decide
  refine PassesBlock.close true ?_ ?_
  · show _ = false :: false :: keptFrom true true ('/' :: t)
    rw [keptFrom_inLine_cons hslash, keptFrom]
  · show _ = true :: false :: codeInLineFrom true ('/' :: t)
    rw [codeInLineFrom_star, codeInLineFrom_inLine_cons hslash, codeInLineFrom]

/-- Otherwise both passes are in code behind the closing mark. -/
theorem passesBlock_close_code {rest : List Char} (hrest : rest.head? ≠ some '/') :
    PassesBlock false false rest ('*' :: '/' :: rest) := by
  have hne : ∀ t, rest = '/' :: t → False := fun t h => hrest (by rw [h]; rfl)
  refine PassesBlock.close true ?_ ?_
  · rw [keptFrom]
    exact hne
  · rw [codeInLineFrom_star, codeInLineFrom_code_cons fun t _ h => hne t h]
    rfl

/-- A line comment begins inside the block. -/
theorem PassesBlock.lineMark {after : Bool} {tail rest : List Char}
    (h : PassesBlock true after tail rest) : PassesBlock false after tail ('/' :: '/' :: rest) := by
  have hslash : '/' ≠ '\n' := by decide
  have hsecond : PassesBlock true after tail ('/' :: rest) :=
    h.cons (keptFrom_inLine_cons hslash true rest) (codeInLineFrom_inLine_cons hslash rest)
  have hline : codeInLineFrom false ('/' :: '/' :: rest) =
      false :: codeInLineFrom true ('/' :: rest) := by
    rw [codeInLineFrom_inLine_cons hslash, codeInLineFrom]
  exact hsecond.cons (by rw [keptFrom_inLine_cons hslash, keptFrom]) hline

/-- A block comment is passed up to its first closing mark. The passes are in code behind it if that
mark is in sight. -/
theorem passesBlock_afterComment (inLine : Bool) (body : List Char) :
    PassesBlock inLine (!closesInSight inLine body) (afterComment body) body := by
  have hclosed (rest : List Char) : afterComment ('*' :: '/' :: rest) = rest :=
    congrArg (Option.getD · []) (afterFirst?_append ['*', '/'] rest (List.cons_ne_nil _ _))
  fun_induction closesInSight inLine body with
  | case1 inLine =>
    refine ⟨[], [], rfl, rfl, ?_, ?_, fun h => absurd rfl h⟩
    · rw [keptFrom, show afterComment [] = [] from rfl, keptFrom]
      rfl
    · rw [codeInLineFrom, show afterComment [] = [] from rfl, codeInLineFrom]
      rfl
  | case2 rest =>
    rw [hclosed]
    exact passesBlock_close_inLine rest
  | case3 rest ih =>
    rw [afterComment_cons fun _ hc _ => absurd hc (by decide)]
    exact ih.cons (by rw [keptFrom]; rfl) (by rw [codeInLineFrom])
  | case4 c rest hclose hfeed ih =>
    rw [afterComment_cons hclose]
    exact ih.cons (keptFrom_inLine_cons hfeed true rest) (codeInLineFrom_inLine_cons hfeed rest)
  | case5 rest =>
    rw [hclosed]
    by_cases hrest : rest.head? = some '/'
    · obtain ⟨t, rfl⟩ := List.head?_eq_some_iff.mp hrest
      exact passesBlock_close_slash t
    · have hsight : (!(rest.head? != some '/')) = false := by simpa using hrest
      rw [hsight]
      exact passesBlock_close_code hrest
  | case6 rest ih =>
    rw [afterComment_cons fun _ hc _ => absurd hc (by decide),
      afterComment_cons fun _ hc _ => absurd hc (by decide)]
    exact ih.lineMark
  | case7 c rest hclose hline ih =>
    rw [afterComment_cons hclose]
    refine ih.cons ?_ (codeInLineFrom_code_cons hline)
    rw [keptFrom]
    · rfl
    · exact hline
    · rintro t hblock
      cases hblock
    · exact fun t _ hc hs => hclose _ hc hs
    · exact fun t _ => hclose t

/-- A block comment is passed as a whole, whatever the first pass is in before it. -/
theorem passesComment_block (before : Bool) {t body : List Char}
    (h : t ++ afterComment body = body) :
    PassesComment before (!closesInSight before body) ('/' :: '*' :: t) (afterComment body) := by
  have hslash : '/' ≠ '\n' := by decide
  have hstar : '*' ≠ '\n' := by decide
  have hkept : keptFrom before before ('/' :: '*' :: body) =
      false :: false :: keptFrom before true body := by
    cases before with
    | true => rw [keptFrom_inLine_cons hslash, keptFrom_inLine_cons hstar]
    | false => rw [keptFrom]
  have hline : codeInLineFrom before ('/' :: '*' :: body) =
      (!before) :: (!before) :: codeInLineFrom before body := by
    cases before with
    | true =>
      rw [codeInLineFrom_inLine_cons hslash, codeInLineFrom_inLine_cons hstar]
      rfl
    | false =>
      rw [codeInLineFrom_code_cons fun _ _ h => absurd (List.cons.inj h).1 (by decide),
        codeInLineFrom_star]
      rfl
  obtain ⟨t', flags, ht', hlength, hkeptAll, hlineAll, hlast⟩ :=
    passesBlock_afterComment before body
  obtain rfl : t' = t := List.append_cancel_right (ht'.trans h.symm)
  refine ⟨?kept, (!before) :: (!before) :: flags, by simp [hlength], ?inLine, fun htail _ => ?last⟩
  case kept =>
    show keptFrom before before ('/' :: '*' :: (t' ++ afterComment body)) = _
    rw [h, hkept, hkeptAll]
    rfl
  case inLine =>
    show codeInLineFrom before ('/' :: '*' :: (t' ++ afterComment body)) = _
    rw [h, hline, hlineAll]
    rfl
  case last =>
    obtain ⟨hne, hflag⟩ := hlast htail
    obtain ⟨n, hn⟩ : ∃ n, t'.length = n + 1 :=
      Nat.exists_eq_succ_of_ne_zero fun hzero => hne (List.length_eq_zero_iff.mp hzero)
    rw [List.getLast?_eq_getElem?, hlength, hn] at hflag
    rw [List.length_cons, List.length_cons, hn]
    exact hflag

/-! ## The exact condition -/

theorem walkedFrom_cons (lineStart : Bool) (c : Char) (rest : List Char) :
    walkedFrom lineStart (c :: rest) =
      let u := firstStretch comment? lineStart c rest
      List.replicate u.text.length (!u.matched) ++ walkedFrom (!u.matched && c = '\n') u.after := by
  rw [walkedFrom, stretches, List.flatMap_cons]
  rfl

/-- Behind every block comment among some stretches of a text whose last slash is flagged as dropped
no code is lost. -/
def LosesNothingIn (s : List Char) (flags : List Bool) (l : List Stretch) : Prop :=
  ∀ u ∈ l, isBlockComment u = true → flags[u.start s + (u.text.length - 1)]? = some false →
    NoCodeAhead u.after

theorem losesNothingIn_cons (lineStart : Bool) (u : Stretch) {flags : List Bool}
    (flags' : List Bool) (hflags : flags.length = u.text.length) :
    LosesNothingIn (u.text ++ u.after) (flags ++ flags')
        (u :: stretches comment? lineStart u.after) ↔
      (isBlockComment u = true → flags[u.text.length - 1]? = some false → NoCodeAhead u.after) ∧
        LosesNothingIn u.after flags' (stretches comment? lineStart u.after) := by
  have hzero : u.start (u.text ++ u.after) = 0 := Nat.sub_self _
  have hfirst : isBlockComment u = true → (flags ++ flags')[0 + (u.text.length - 1)]? =
      flags[u.text.length - 1]? := by
    intro hblock
    have hlength : u.text ≠ [] := by
      rintro hnil
      simp [isBlockComment, hnil] at hblock
    rw [Nat.zero_add, List.getElem?_append_left]
    rw [hflags]
    exact Nat.sub_lt (List.length_pos_iff.mpr hlength) Nat.one_pos
  have hlater {v : Stretch} (hv : v ∈ stretches comment? lineStart u.after) :
      (flags ++ flags')[v.start (u.text ++ u.after) + (v.text.length - 1)]? =
        flags'[v.start u.after + (v.text.length - 1)]? := by
    rw [start_append comment?_consuming hv, ← hflags, Nat.add_assoc,
      List.getElem?_append_right (Nat.le_add_right _ _), Nat.add_sub_cancel_left]
  constructor
  · intro h
    refine ⟨fun hblock hflag => ?_, fun v hv hblock hflag => ?_⟩
    · exact h u List.mem_cons_self hblock (by rw [hzero, hfirst hblock, hflag])
    · exact h v (List.mem_cons_of_mem u hv) hblock (by rw [hlater hv, hflag])
  · rintro ⟨hhead, htail⟩ v hv hblock hflag
    rcases List.mem_cons.mp hv with rfl | hv
    · exact hhead hblock (by rw [← hfirst hblock, ← hzero, hflag])
    · exact htail v hv hblock (by rw [← hlater hv, hflag])

/-- Both ways agree on a text that begins with a comment if they agree behind it, provided that no
code is lost there. -/
theorem agree_over_comment {before after lineStart : Bool} {c : Char} {t tail : List Char}
    (hfirst : firstStretch comment? lineStart c (t ++ tail) = ⟨true, c :: t, tail⟩)
    (hpass : PassesComment before after (c :: t) tail)
    (hahead : (before = true → NoCodeAhead (c :: (t ++ tail))) ∧
      (t.head? = some '*' → after = true → NoCodeAhead tail) ↔ (after = true → NoCodeAhead tail))
    (ih : keptFrom after after tail = walkedFrom false tail ↔ (after = true → NoCodeAhead tail) ∧
      LosesNothingIn tail (codeInLineFrom after tail) (stretches comment? false tail)) :
    keptFrom before before (c :: (t ++ tail)) = walkedFrom lineStart (c :: (t ++ tail)) ↔
      (before = true → NoCodeAhead (c :: (t ++ tail))) ∧
        LosesNothingIn (c :: (t ++ tail)) (codeInLineFrom before (c :: (t ++ tail)))
          (stretches comment? lineStart (c :: (t ++ tail))) := by
  obtain ⟨hkept, flags, hlength, hline, hlast⟩ := hpass
  rw [List.cons_append] at hkept hline
  have hhead : (isBlockComment ⟨true, c :: t, tail⟩ = true →
      flags[(c :: t).length - 1]? = some false → NoCodeAhead tail) ↔
        (t.head? = some '*' → after = true → NoCodeAhead tail) := by
    by_cases htail : tail = []
    · exact iff_of_true (fun _ _ => .inl htail) fun _ _ => .inl htail
    · have hblock : isBlockComment ⟨true, c :: t, tail⟩ = true ↔ t.head? = some '*' := by
        simp [isBlockComment, List.head?_eq_getElem?]
      rw [hblock]
      refine forall_congr' fun hstar => ?_
      rw [hlast htail (by rw [List.getElem?_cons_succ, ← List.head?_eq_getElem?, hstar])]
      cases after <;> simp
  have hstretches : stretches comment? lineStart (c :: (t ++ tail)) =
      ⟨true, c :: t, tail⟩ :: stretches comment? false tail := by
    rw [stretches, hfirst]
    rfl
  have hcons := losesNothingIn_cons false ⟨true, c :: t, tail⟩ (codeInLineFrom after tail) hlength
  rw [walkedFrom_cons, hfirst, hkept]
  show _ = List.replicate (c :: t).length false ++ walkedFrom false tail ↔ _
  rw [List.append_cancel_left_eq, ih, hstretches, hline]
  show _ ↔ _ ∧ LosesNothingIn ((c :: t) ++ tail) _ _
  rw [hcons, hhead, ← and_assoc, hahead]

/-- What follows a line comment is nothing or a line feed. -/
theorem dropWhile_line (s : List Char) :
    s.dropWhile (· != '\n') = [] ∨ ∃ rest, s.dropWhile (· != '\n') = '\n' :: rest := by
  cases h : s.dropWhile (· != '\n') with
  | nil => exact .inl rfl
  | cons c rest =>
    have hc := List.head?_dropWhile_not (· != '\n') s
    rw [h] at hc
    exact .inr ⟨rest, by rw [bne_eq_false_iff_eq.mp hc]⟩

/-- A character that begins no comment is code ahead. -/
theorem not_noCodeAhead {c : Char} {rest : List Char} (hcode : opensComment (c :: rest) = false) :
    ¬NoCodeAhead (c :: rest) := by
  rintro (h | ⟨t, h⟩ | ⟨⟨t, h⟩, -⟩)
  · cases h
  · rw [← h] at hcode
    cases hcode
  · rw [← h] at hcode
    cases hcode

/-- In a block comment and a line comment at once, no character is kept as code. -/
theorem keptFrom_hidden_ne (c : Char) (rest : List Char) (flags : List Bool) :
    keptFrom true true (c :: rest) ≠ true :: flags := by
  intro h
  by_cases hc : c = '\n'
  · rw [hc, keptFrom] at h
    cases h
  · rw [keptFrom_inLine_cons hc] at h
    cases h

/-- A character that begins no comment is code, unless a hidden end stands before it. -/
theorem agree_over_code {hidden lineStart : Bool} {c : Char} {rest : List Char}
    (hcode : opensComment (c :: rest) = false)
    (ih : keptFrom false false rest = walkedFrom (c = '\n') rest ↔
      (false = true → NoCodeAhead rest) ∧
        LosesNothingIn rest (codeInLineFrom false rest) (stretches comment? (c = '\n') rest)) :
    keptFrom hidden hidden (c :: rest) = walkedFrom lineStart (c :: rest) ↔
      (hidden = true → NoCodeAhead (c :: rest)) ∧
        LosesNothingIn (c :: rest) (codeInLineFrom hidden (c :: rest))
          (stretches comment? lineStart (c :: rest)) := by
  have hfirst : firstStretch comment? lineStart c rest = ⟨false, [c], rest⟩ :=
    firstStretch_of_none (comment?_eq_none_iff.mpr hcode)
  have hwalked : walkedFrom lineStart (c :: rest) = true :: walkedFrom (c = '\n') rest := by
    rw [walkedFrom_cons, hfirst]
    simp
  rw [hwalked]
  cases hidden with
  | true =>
    exact iff_of_false (keptFrom_hidden_ne c rest _) fun h => not_noCodeAhead hcode (h.1 rfl)
  | false =>
    have hline : codeInLineFrom false (c :: rest) = [true] ++ codeInLineFrom false rest := by
      refine codeInLineFrom_code_cons ?_
      rintro t rfl rfl
      cases hcode
    have hstretches : stretches comment? lineStart (c :: rest) =
        ⟨false, [c], rest⟩ :: stretches comment? (c = '\n') rest := by
      rw [stretches, hfirst]
      simp
    have hlength : [true].length = [c].length := rfl
    have hcons := losesNothingIn_cons (c = '\n') ⟨false, [c], rest⟩ (codeInLineFrom false rest)
      hlength
    rw [keptFrom_code_cons hcode, List.cons_inj_right, ih, hline, hstretches]
    show _ ↔ _ ∧ LosesNothingIn ([c] ++ rest) _ _
    rw [hcons]
    have hnever {p : Prop} : false = true → p := fun h => absurd h Bool.false_ne_true
    constructor
    · intro h
      exact ⟨hnever, hnever, h.2⟩
    · intro h
      exact ⟨hnever, h.2.2⟩

/-- Ahead of a line comment there is no code exactly if there is none behind it. -/
theorem noCodeAhead_line {line tail : List Char} (hline : '\n' ∉ line)
    (htail : tail = [] ∨ ∃ rest, tail = '\n' :: rest) :
    NoCodeAhead ('/' :: '/' :: (line ++ tail)) ↔ NoCodeAhead tail := by
  rcases htail with rfl | ⟨rest, rfl⟩
  · refine iff_of_true (.inr (.inr ⟨⟨_, rfl⟩, ?_⟩)) (.inl rfl)
    simpa using hline
  · refine iff_of_false ?_ ?_
    · rintro (h | ⟨t, h⟩ | ⟨-, h⟩)
      · cases h
      · cases h
      · simp at h
    · rintro (h | ⟨t, h⟩ | ⟨⟨t, h⟩, -⟩) <;> cases h

/-- A comment is a line comment up to its line feed or a block comment up to its closing mark. -/
theorem comment?_cases {lineStart : Bool} {c : Char} {t tail : List Char}
    (h : comment? lineStart (c :: (t ++ tail)) = some tail) :
    (∃ line, c = '/' ∧ t = '/' :: line ∧ '\n' ∉ line ∧
      (tail = [] ∨ ∃ rest, tail = '\n' :: rest)) ∨
    ∃ block body, c = '/' ∧ t = '*' :: block ∧ tail = afterComment body ∧ block ++ tail = body := by
  unfold comment? at h
  split at h
  · next rest heq =>
    obtain ⟨hc, hrest⟩ := List.cons.inj heq
    obtain rfl := (Option.some.inj h).symm
    have ht : t = '/' :: rest.takeWhile (· != '\n') := by
      refine List.append_cancel_right (hrest.trans ?_)
      rw [List.cons_append, List.takeWhile_append_dropWhile]
    refine .inl ⟨_, hc, ht, fun hmem => ?_, dropWhile_line rest⟩
    simpa using List.all_eq_true.mp List.all_takeWhile _ hmem
  · next body heq =>
    obtain ⟨hc, hbody⟩ := List.cons.inj heq
    obtain rfl := (Option.some.inj h).symm
    obtain ⟨block, hblock⟩ := afterComment_suffix body
    have ht : t = '*' :: block := by
      refine List.append_cancel_right (hbody.trans ?_)
      rw [List.cons_append, hblock]
    exact .inr ⟨block, body, hc, ht, rfl, hblock⟩
  · cases h

/-- **Both ways keep the same characters exactly if behind every hidden end no code is lost.** The
flag tells whether the text starts behind a hidden end. -/
theorem keptFrom_eq_walkedFrom_iff (hidden lineStart : Bool) (s : List Char) :
    keptFrom hidden hidden s = walkedFrom lineStart s ↔
      (hidden = true → NoCodeAhead s) ∧
        LosesNothingIn s (codeInLineFrom hidden s) (stretches comment? lineStart s) := by
  -- along the one pass, with the flag of what stands behind each comment
  fun_induction stretches comment? lineStart s generalizing hidden with
  | case1 lineStart =>
    rw [keptFrom, walkedFrom, stretches]
    exact iff_of_true rfl ⟨fun _ => .inl rfl, fun u hu => absurd hu List.not_mem_nil⟩
  | case2 lineStart c rest first ih =>
    have hstretches : first :: stretches comment? (!first.matched && c = '\n') first.after =
        stretches comment? lineStart (c :: rest) := by
      rw [stretches]
    rw [hstretches]
    rcases firstStretch_cases comment?_consuming lineStart c rest with
      ⟨hnone, hfirst⟩ | ⟨t, tail, rfl, hsome, hfirst⟩
    · rw [show first = _ from hfirst] at ih
      exact agree_over_code (comment?_eq_none_iff.mp hnone) (by simpa using ih false)
    rw [show first = _ from hfirst] at ih
    rcases comment?_cases hsome with
      ⟨line, rfl, rfl, hline, htail⟩ | ⟨block, body, rfl, rfl, htail, hbody⟩
    · have hahead : NoCodeAhead ('/' :: ('/' :: line ++ tail)) ↔ NoCodeAhead tail :=
        noCodeAhead_line hline htail
      refine agree_over_comment hfirst (passesComment_line hidden hline htail) ?_ (ih hidden)
      rw [hahead]
      exact ⟨fun h => h.1, fun h => ⟨h, fun hstar => by cases hstar⟩⟩
    · subst htail
      refine agree_over_comment hfirst (passesComment_block hidden hbody) ?_ (ih _)
      have hahead : NoCodeAhead ('/' :: ('*' :: block ++ afterComment body)) :=
        .inr (.inl ⟨_, rfl⟩)
      exact ⟨fun h => h.2 rfl, fun h => ⟨fun _ => hahead, fun _ => h⟩⟩

/-- **The two passes of the stripper and the one pass keep the same characters exactly if behind
every hidden end no code is lost**, and then they leave the same text. -/
theorem kept_eq_walked_iff (s : List Char) :
    stripComments s = keep s (kept s) ∧ withoutComments s = keep s (walked s) ∧
      (kept s = walked s ↔ LosesNothing s) ∧
      (LosesNothing s → stripComments s = withoutComments s) := by
  have hflags : kept s = walked s ↔ LosesNothing s := by
    refine (keptFrom_eq_walkedFrom_iff false true s).trans ⟨fun h u hu hend => ?_, fun h => ?_⟩
    · exact h.2 u hu hend.1 hend.2
    · exact ⟨nofun, fun u hu hblock hflag => h u hu ⟨hblock, hflag⟩⟩
  refine ⟨stripComments_eq_keep s, withoutComments_eq_keep s, hflags, fun h => ?_⟩
  rw [stripComments_eq_keep, withoutComments_eq_keep, hflags.mpr h]

/-- Behind a hidden end another block comment may follow, which ends on a later line. -/
theorem kept_eq_walked_of_adjacent_blocks :
    LosesNothing "x /* // *//* y\n*/ z".toList ∧
      kept "x /* // *//* y\n*/ z".toList = walked "x /* // *//* y\n*/ z".toList ∧
      stripComments "x /* // *//* y\n*/ z".toList =
        withoutComments "x /* // *//* y\n*/ z".toList := by
  have h : LosesNothing "x /* // *//* y\n*/ z".toList := by decide +kernel
  obtain ⟨-, -, hflags, htext⟩ := kept_eq_walked_iff "x /* // *//* y\n*/ z".toList
  exact ⟨h, hflags.mpr h, htext h⟩

/-- Behind an end that a double slash hides, code is lost. -/
theorem stripComments_loses_code :
    stripComments "/* // */ x".toList = [] ∧ withoutComments "/* // */ x".toList = " x".toList := by
  decide +kernel

end GrammarAudit.Grammar
