import GrammarAudit.Proofs.Grammar.Alignment

/-!
# What stands in a unit does not matter

`symbolReferences` puts a blank where a literal, a character set, an action block or a comment was.
Which one it was, and what stood in it, is gone before any name is read, as long as every unit up
to there is closed.

- `Content`, `Nested`, `ClosedUnit`: the closed units, by their shape.
- `closedUnit_iff`: they are the texts that the walk passes over as a whole.
- `ClosedWalk`: a text all of whose units are closed.
- `blankMatches_append`: behind a closed walk the rest is blanked by itself.
- `symbolReferences_unit_eq`: one closed unit is as good as another.
-/

namespace GrammarAudit.Grammar

open Text

/-! ## Closed units -/

/-- What may stand between the marks of a literal or a character set: any character but those that
end it, and a backslash with whatever character it takes along. -/
inductive Content (ends : List Char) : List Char → Prop
  | nil : Content ends []
  | escape (c : Char) {s : List Char} (rest : Content ends s) : Content ends ('\\' :: c :: s)
  | plain {c : Char} {s : List Char} (hslash : c ≠ '\\') (hends : c ∉ ends)
      (rest : Content ends s) : Content ends (c :: s)

/-- A text whose braces pair up. -/
inductive Nested : List Char → Prop
  | nil : Nested []
  | plain {c : Char} {s : List Char} (hopen : c ≠ '{') (hclose : c ≠ '}') (rest : Nested s) :
      Nested (c :: s)
  | block {s t : List Char} (inner : Nested s) (rest : Nested t) :
      Nested ('{' :: (s ++ '}' :: t))

/-- A literal on one line, a character set, an action block or a block comment, from its opening
mark to its closing one. -/
inductive ClosedUnit : List Char → Prop
  | literal {mark : Char} {s : List Char} (hmark : isQuote mark = true)
      (content : Content [mark, '\n'] s) : ClosedUnit (mark :: (s ++ [mark]))
  | charSet {s : List Char} (content : Content [']'] s) : ClosedUnit ('[' :: (s ++ [']']))
  | block {s : List Char} (inner : Nested s) : ClosedUnit ('{' :: (s ++ ['}']))
  | comment {s : List Char} (hends : ¬['*', '/'] <:+: s) :
      ClosedUnit ('/' :: '*' :: (s ++ ['*', '/']))

/-! ## The walk passes over closed units -/

theorem not_escape_of_isQuote {mark : Char} (h : isQuote mark = true) : mark ≠ '\\' := by
  rintro rfl
  cases h

theorem afterLiteral_of_ne {mark c : Char} (hc : c ≠ '\\') (rest : List Char) :
    afterLiteral mark (c :: rest) =
      if c = mark then rest else if c = '\n' then c :: rest else afterLiteral mark rest := by
  rw [afterLiteral]
  · rintro rfl
    exact absurd rfl hc
  · rintro - - rfl
    exact absurd rfl hc

theorem afterCharSet_of_ne {c : Char} (hc : c ≠ '\\') (rest : List Char) :
    afterCharSet (c :: rest) = if c = ']' then rest else afterCharSet rest := by
  rw [afterCharSet]
  · rintro rfl
    exact absurd rfl hc
  · rintro - - rfl
    exact absurd rfl hc

/-- Contents are passed over, whatever follows. -/
theorem afterLiteral_append_of_content {mark : Char} {s : List Char}
    (h : Content [mark, '\n'] s) (t : List Char) :
    afterLiteral mark (s ++ t) = afterLiteral mark t := by
  induction h with
  | nil => rfl
  | escape c rest ih => exact ih
  | plain hslash hends rest ih =>
    rw [List.cons_append, afterLiteral_of_ne hslash, if_neg, if_neg, ih]
    · rintro rfl
      exact hends (by simp)
    · rintro rfl
      exact hends (by simp)

theorem afterLiteral_of_content {mark : Char} {s : List Char} (hmark : mark ≠ '\\')
    (h : Content [mark, '\n'] s) (t : List Char) :
    afterLiteral mark (s ++ mark :: t) = t := by
  rw [afterLiteral_append_of_content h, afterLiteral_of_ne hmark, if_pos rfl]

theorem afterCharSet_of_content {s : List Char} (h : Content [']'] s) (t : List Char) :
    afterCharSet (s ++ ']' :: t) = t := by
  induction h with
  | nil => rfl
  | escape c rest ih => exact ih
  | plain hslash hends rest ih =>
    rw [List.cons_append, afterCharSet_of_ne hslash, if_neg, ih]
    rintro rfl
    exact hends (by simp)

/-- A text whose braces pair up leaves the number of open blocks as it was. -/
theorem afterBlock_of_nested {s : List Char} (h : Nested s) {depth : Int} (hdepth : 0 < depth)
    (t : List Char) : afterBlock depth (s ++ t) = afterBlock depth t := by
  induction h generalizing depth t with
  | nil => rfl
  | plain hopen hclose rest ih =>
    rw [List.cons_append, afterBlock, if_neg hopen, if_neg hclose, ih hdepth]
  | block inner rest ihInner ihRest =>
    have hne : depth + 1 ≠ 1 := by omega
    rw [List.cons_append, List.append_assoc, List.cons_append, afterBlock, if_pos rfl,
      ihInner (by omega), afterBlock, if_neg (by decide), if_pos rfl, if_neg hne,
      Int.add_sub_cancel, ihRest hdepth]

theorem afterFirst?_commentEnd {s : List Char} (h : ¬['*', '/'] <:+: s) (t : List Char) :
    afterFirst? ['*', '/'] (s ++ '*' :: '/' :: t) = some t := by
  induction s with
  | nil => exact afterFirst?_append ['*', '/'] t (List.cons_ne_nil _ _)
  | cons c s ih =>
    rw [List.cons_append, afterFirst?_cons, ih fun hin => h (List.infix_cons hin)]
    intro tail heq
    obtain ⟨rfl, hnext⟩ := List.cons.inj heq
    rcases s with - | ⟨d, s⟩
    · exact absurd (List.cons.inj hnext).1 (by decide)
    · obtain ⟨rfl, -⟩ := List.cons.inj hnext
      exact h ⟨[], s, rfl⟩

/-- **The walk passes over a closed unit**, whatever stands behind it. -/
theorem enclosure?_of_closedUnit {v : List Char} (h : ClosedUnit v) (lineStart : Bool)
    (t : List Char) : enclosure? lineStart (v ++ t) = some t := by
  cases h with
  | @literal mark s hmark content =>
    have hafter := afterLiteral_of_content (not_escape_of_isQuote hmark) content t
    simp only [List.cons_append, List.append_assoc, List.nil_append, enclosure?, hmark,
      if_true, hafter]
  | charSet content =>
    have hafter := afterCharSet_of_content content t
    simp [enclosure?, isQuote, hafter]
  | @block s inner =>
    have hafter : afterBlock 1 (s ++ '}' :: t) = t := by
      rw [afterBlock_of_nested inner Int.one_pos]
      rfl
    simp [enclosure?, isQuote, hafter]
  | comment hends =>
    have hafter := afterFirst?_commentEnd hends t
    simp [enclosure?, isQuote, hafter]

/-! ## The walk passes over nothing else -/

/-- A character is no backslash if it neither ends the text nor takes the next one along. -/
theorem not_escape_of {c : Char} {rest : List Char} (hlast : c = '\\' → rest = [] → False)
    (htakes : ∀ d tail, c = '\\' → rest = d :: tail → False) : c ≠ '\\' := by
  intro hc
  rcases rest with - | ⟨d, tail⟩
  · exact hlast hc rfl
  · exact htakes d tail hc rfl

/-- Behind its contents a literal is closed by its mark, or it ends before a line feed or with the
text, which may end with a backslash that takes nothing along. -/
theorem afterLiteral_cases (mark : Char) (s : List Char) :
    ∃ x last, Content [mark, '\n'] x ∧ s = x ++ last ++ afterLiteral mark s ∧
      (last = [mark] ∨ (last = [] ∨ last = ['\\']) ∧
        (afterLiteral mark s = [] ∨ (afterLiteral mark s).head? = some '\n')) := by
  fun_induction afterLiteral mark s with
  | case1 => exact ⟨[], [], .nil, rfl, .inr ⟨.inl rfl, .inl rfl⟩⟩
  | case2 => exact ⟨[], ['\\'], .nil, rfl, .inr ⟨.inr rfl, .inl rfl⟩⟩
  | case3 d rest ih =>
    obtain ⟨x, last, hx, hs, hlast⟩ := ih
    exact ⟨'\\' :: d :: x, last, hx.escape d, congrArg ('\\' :: d :: ·) hs, hlast⟩
  | case4 rest => exact ⟨[], [mark], .nil, rfl, .inl rfl⟩
  | case5 rest => exact ⟨[], [], .nil, rfl, .inr ⟨.inl rfl, .inr rfl⟩⟩
  | case6 c rest hend htakes hmark hfeed ih =>
    obtain ⟨x, last, hx, hs, hlast⟩ := ih
    have hends : c ∉ [mark, '\n'] := by simp [hmark, hfeed]
    exact ⟨c :: x, last, hx.plain (not_escape_of hend htakes) hends, congrArg (c :: ·) hs, hlast⟩

/-- A character set ends at its closing bracket, or it is not closed. -/
theorem afterCharSet_cases (s : List Char) :
    afterCharSet s = [] ∨ ∃ x, Content [']'] x ∧ s = x ++ ']' :: afterCharSet s := by
  fun_induction afterCharSet s with
  | case1 => exact .inl rfl
  | case2 => exact .inl rfl
  | case3 d rest ih =>
    refine ih.imp_right ?_
    rintro ⟨x, hx, hs⟩
    exact ⟨'\\' :: d :: x, hx.escape d, by rw [List.cons_append, List.cons_append, ← hs]⟩
  | case4 rest => exact .inr ⟨[], .nil, rfl⟩
  | case5 c rest hlast htakes hclose ih =>
    refine ih.imp_right ?_
    rintro ⟨x, hx, hs⟩
    have hends : c ∉ [']'] := by simp [hclose]
    exact ⟨c :: x, hx.plain (not_escape_of hlast htakes) hends, by rw [List.cons_append, ← hs]⟩

/-- Up to the brace that closes the innermost open block the braces pair up, or it is not
closed. -/
theorem afterBlock_cases {depth : Int} (hdepth : 0 < depth) (s : List Char) :
    afterBlock depth s = [] ∨
      ∃ x y, Nested x ∧ s = x ++ '}' :: y ∧ afterBlock depth s = afterBlock depth ('}' :: y) := by
  rcases s with - | ⟨c, s⟩
  · exact .inl rfl
  by_cases hopen : c = '{'
  · subst hopen
    have hnext : afterBlock depth ('{' :: s) = afterBlock (depth + 1) s := rfl
    -- the block that opens here closes at some brace, and the search goes on behind it
    rcases afterBlock_cases (Int.add_pos hdepth Int.one_pos) s with hnil | ⟨x, y, hx, rfl, hxy⟩
    · exact .inl (hnext.trans hnil)
    have hne : depth + 1 ≠ 1 := by omega
    have hclosed : afterBlock (depth + 1) ('}' :: y) = afterBlock depth y := by
      rw [afterBlock, if_neg (by decide), if_pos rfl, if_neg hne, Int.add_sub_cancel]
    have hafter := hnext.trans (hxy.trans hclosed)
    rcases afterBlock_cases hdepth y with hnil | ⟨x', y', hx', rfl, hxy'⟩
    · exact .inl (hafter.trans hnil)
    · exact .inr ⟨'{' :: (x ++ '}' :: x'), y', hx.block hx', by simp, hafter.trans hxy'⟩
  by_cases hclose : c = '}'
  · subst hclose
    exact .inr ⟨[], s, .nil, rfl, rfl⟩
  · have hnext : afterBlock depth (c :: s) = afterBlock depth s := by
      rw [afterBlock, if_neg hopen, if_neg hclose]
    rw [hnext]
    rcases afterBlock_cases hdepth s with hnil | ⟨x, y, hx, rfl, hxy⟩
    · exact .inl hnil
    · exact .inr ⟨c :: x, y, hx.plain hopen hclose, rfl, hxy⟩
termination_by s.length

/-- What the walk passes over as a whole is a closed unit, unless it runs to the end of the text
or to a line feed. -/
theorem closedUnit_of_enclosure? {lineStart : Bool} {s : List Char} {d : Char} {tail : List Char}
    (h : enclosure? lineStart s = some (d :: tail)) (hd : d ≠ '\n') :
    ∃ v, ClosedUnit v ∧ s = v ++ d :: tail := by
  rcases s with - | ⟨c, rest⟩
  · cases h
  rcases enclosure?_cases h with ⟨hquote, htail⟩ | ⟨rfl, htail⟩ | ⟨rfl, htail⟩ |
    ⟨line, hline, htail⟩ | ⟨body, hbody, htail⟩
  · -- a literal
    have hcases := afterLiteral_cases c rest
    rw [← htail] at hcases
    obtain ⟨x, last, hx, rfl, rfl | ⟨-, hnil | hfeed⟩⟩ := hcases
    · exact ⟨c :: (x ++ [c]), .literal hquote hx, by simp⟩
    · cases hnil
    · exact absurd (Option.some.inj hfeed) hd
  · -- a character set
    have hcases := afterCharSet_cases rest
    rw [← htail] at hcases
    rcases hcases with hnil | ⟨x, hx, rfl⟩
    · cases hnil
    · exact ⟨'[' :: (x ++ [']']), .charSet hx, by simp⟩
  · -- an action block
    have hcases := afterBlock_cases Int.one_pos rest
    rw [← htail] at hcases
    rcases hcases with hnil | ⟨x, y, hx, rfl, hy⟩
    · cases hnil
    · obtain rfl : d :: tail = y := hy
      exact ⟨'{' :: (x ++ ['}']), .block hx, by simp⟩
  · -- a line comment, which runs to the end of its line
    have hstop := List.head?_dropWhile_not (· != '\n') line
    rw [← htail] at hstop
    exact absurd (bne_eq_false_iff_eq.mp hstop) hd
  · -- a block comment
    cases hclose : afterFirst? ['*', '/'] body with
    | none =>
      rw [hclose] at htail
      cases htail
    | some after =>
      rw [hclose] at htail
      obtain rfl : d :: tail = after := htail
      obtain ⟨x, rfl, hx⟩ := exists_of_afterFirst?_eq_some (List.cons_ne_nil _ _) hclose
      exact ⟨'/' :: '*' :: (x ++ ['*', '/']), .comment hx, by rw [hbody]; simp⟩

/-- The closed units are the texts that the walk passes over before a blank. -/
theorem closedUnit_iff {v : List Char} :
    ClosedUnit v ↔ enclosure? true (v ++ [' ']) = some [' '] := by
  constructor
  · exact fun h => enclosure?_of_closedUnit h true [' ']
  · intro h
    obtain ⟨v', hv', heq⟩ := closedUnit_of_enclosure? h (by decide)
    rwa [List.append_cancel_right heq]

instance (v : List Char) : Decidable (ClosedUnit v) :=
  decidable_of_iff _ closedUnit_iff.symm

/-! ## Closed walks -/

/-- A unit that is closed, a line comment by the line feed behind it. -/
def ClosedStretch (e : Stretch) : Prop :=
  ClosedUnit e.text ∨ (['/', '/'] <+: e.text ∧ e.after.head? = some '\n')

/-- A text whose units are all closed. -/
def ClosedWalk (s : List Char) : Prop :=
  ∀ e ∈ enclosures s, e.matched = true → ClosedStretch e

instance (e : Stretch) : Decidable (ClosedStretch e) :=
  inferInstanceAs (Decidable (_ ∨ _))

instance (s : List Char) : Decidable (ClosedWalk s) :=
  inferInstanceAs (Decidable (∀ e ∈ enclosures s, e.matched = true → ClosedStretch e))

theorem enclosure?_congr (a b : Bool) (s : List Char) : enclosure? a s = enclosure? b s :=
  rfl

theorem dropWhile_append_of_head? {p : Char → Bool} {s : List Char} {d : Char}
    (h : (s.dropWhile p).head? = some d) (t : List Char) :
    (s ++ t).dropWhile p = s.dropWhile p ++ t := by
  rw [List.dropWhile_append, if_neg]
  rw [List.isEmpty_iff]
  intro hnil
  rw [hnil] at h
  cases h

/-- A closed unit ends where it ends, whatever stands behind the text. -/
theorem enclosure?_of_closedStretch {lineStart : Bool} {c : Char} {t tail : List Char}
    (hmatch : enclosure? lineStart (c :: (t ++ tail)) = some tail)
    (h : ClosedStretch ⟨true, c :: t, tail⟩) (s : List Char) :
    enclosure? lineStart (c :: (t ++ tail ++ s)) = some (tail ++ s) := by
  rcases h with hunit | ⟨hline, hfeed⟩
  · have hskip := enclosure?_of_closedUnit hunit lineStart (tail ++ s)
    rwa [← List.append_assoc] at hskip
  · obtain ⟨rest, hrest⟩ := hline
    obtain ⟨rfl, rfl⟩ := List.cons.inj hrest
    have hdrop : (('/' :: rest) ++ tail).dropWhile (· != '\n') = tail := Option.some.inj hmatch
    have hmore := dropWhile_append_of_head? (by rw [hdrop]; exact hfeed) s
    rw [hdrop] at hmore
    exact congrArg some hmore

/-- Where no unit begins none begins when the text goes on, but for a slash at its end. -/
theorem enclosure?_eq_none_append {lineStart : Bool} {c : Char} {rest : List Char}
    (h : enclosure? lineStart (c :: rest) = none) (hslash : (c :: rest).getLast? ≠ some '/')
    (s : List Char) : enclosure? lineStart (c :: (rest ++ s)) = none := by
  obtain ⟨hquote, hset, hblock, hcomment⟩ := enclosure?_eq_none_iff.mp h
  refine enclosure?_eq_none_iff.mpr ⟨hquote, hset, hblock, fun hc => ?_⟩
  rcases rest with - | ⟨d, rest⟩
  · exact absurd (congrArg some hc) hslash
  · exact hcomment hc

theorem getLast?_ne_of_suffix {s t : List Char} {d : Char} (hsuffix : s <:+ t)
    (h : t.getLast? ≠ some d) : s.getLast? ≠ some d := by
  obtain ⟨r, rfl⟩ := hsuffix
  intro hs
  rw [List.getLast?_append, hs] at h
  exact h rfl

/-- A closed unit is blanked, and then what stands behind it. -/
theorem blankMatches_unit {v : List Char} (hv : ClosedUnit v) (t : List Char) :
    blankMatches (v ++ t) enclosure? = ' ' :: blankMatches t enclosure? := by
  obtain ⟨c, v, rfl⟩ : ∃ c r, v = c :: r := by cases hv <;> exact ⟨_, _, rfl⟩
  have hskip := enclosure?_of_closedUnit hv true t
  rw [blankMatches, List.cons_append, replaceMatches_of_some hskip,
    replaceMatches_congr enclosure?_congr _ false true]
  rfl

theorem replaceMatches_append {u : List Char} {lineStart : Bool}
    (hclosed : ∀ e ∈ stretches enclosure? lineStart u, e.matched = true → ClosedStretch e)
    (hslash : u.getLast? ≠ some '/') (s : List Char) :
    replaceMatches [' '] enclosure? lineStart (u ++ s) =
      replaceMatches [' '] enclosure? lineStart u ++ blankMatches s enclosure? := by
  fun_induction stretches enclosure? lineStart u with
  | case1 lineStart =>
    rw [replaceMatches, List.nil_append, List.nil_append]
    exact replaceMatches_congr enclosure?_congr _ _ _ _
  | case2 lineStart c rest first ih =>
    have hhead := hclosed first List.mem_cons_self
    have htail := fun e he => hclosed e (List.mem_cons_of_mem _ he)
    rcases firstStretch_cases enclosure?_consuming lineStart c rest with
      ⟨hnone, hfirst⟩ | ⟨t, tail, rfl, hmatch, hfirst⟩
    · rw [show first = _ from hfirst] at ih htail
      have hmore := enclosure?_eq_none_append hnone hslash s
      have hrest := ih htail (getLast?_ne_of_suffix (List.suffix_cons c rest) hslash)
      rw [List.cons_append, replaceMatches_of_none hmore, replaceMatches_of_none hnone]
      exact congrArg (c :: ·) hrest
    · rw [show first = _ from hfirst] at ih htail hhead
      have hmore := enclosure?_of_closedStretch hmatch (hhead rfl) s
      have hsuffix : tail <:+ c :: (t ++ tail) := List.suffix_append (c :: t) tail
      have hrest := ih htail (getLast?_ne_of_suffix hsuffix hslash)
      rw [List.append_assoc] at hmore
      rw [List.cons_append, List.append_assoc, replaceMatches_of_some hmore,
        replaceMatches_of_some hmatch, List.append_assoc]
      exact congrArg ([' '] ++ ·) hrest

/-- **Behind a closed walk the rest is blanked by itself.** -/
theorem blankMatches_append {u : List Char} (hu : ClosedWalk u) (hslash : u.getLast? ≠ some '/')
    (s : List Char) :
    blankMatches (u ++ s) enclosure? = blankMatches u enclosure? ++ blankMatches s enclosure? :=
  replaceMatches_append hu hslash s

/-! ## Symbol references -/

/-- The body of a rule text that begins with the name of the rule. -/
theorem body?_name {name : List Char} (hname : name.all isIdentChar = true) (body : List Char) :
    body? (name ++ [' ', ':'] ++ body) = some body := by
  have hcolon : ':' ∉ name ++ [' '] := by
    rw [List.mem_append, List.mem_singleton]
    rintro (hmem | heq)
    · exact absurd (List.all_eq_true.mp hname ':' hmem) (by decide)
    · exact absurd heq (by decide)
  have hsplit : name ++ [' ', ':'] ++ body = name ++ [' '] ++ ':' :: body := by simp
  rw [hsplit]
  exact afterFirst?_of_not_mem hcolon

/-- **One closed unit is as good as another**: whatever stands in it, and of whichever kind it is,
the same names are left to be resolved. -/
theorem symbolReferences_unit_eq {name u v w : List Char} (t : List Char)
    (hname : name.all isIdentChar = true) (hu : ClosedWalk u) (hslash : u.getLast? ≠ some '/')
    (hv : ClosedUnit v) (hw : ClosedUnit w) :
    symbolReferences (name ++ [' ', ':'] ++ u ++ v ++ t) =
      symbolReferences (name ++ [' ', ':'] ++ u ++ w ++ t) := by
  have hblank : blankMatches (u ++ (v ++ t)) enclosure? =
      blankMatches (u ++ (w ++ t)) enclosure? := by
    rw [blankMatches_append hu hslash, blankMatches_append hu hslash, blankMatches_unit hv,
      blankMatches_unit hw]
  have hbody : ∀ x, body? (name ++ [' ', ':'] ++ u ++ x ++ t) = some (u ++ (x ++ t)) := by
    intro x
    rw [List.append_assoc, List.append_assoc]
    exact body?_name hname _
  rw [symbolReferences, symbolReferences, hbody v, hbody w]
  simp only [List.foldl_cons, hblank]

/-- A quote in a character set and comment marks in a literal before the unit, and a colon in a
line comment; a literal full of marks against a block comment with a name. -/
theorem symbolReferences_unit_eq_marks :
    symbolReferences ("a_1".toList ++ [' ', ':'] ++ "[\"] x='//*' // : b\n|".toList ++
        "'/*\\'-> ] #'".toList ++ " d -> e; | f".toList) =
      symbolReferences ("a_1".toList ++ [' ', ':'] ++ "[\"] x='//*' // : b\n|".toList ++
        "/* g '*/".toList ++ " d -> e; | f".toList) :=
  symbolReferences_unit_eq _ (by decide) (by decide +kernel) (by decide) (by decide +kernel)
    (by decide +kernel)

end GrammarAudit.Grammar
