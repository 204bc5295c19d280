import GrammarAudit.Grammar.Header
import GrammarAudit.Proofs.Grammar.Declaration
import GrammarAudit.Proofs.Grammar.Enclosure

/-!
# What headers begin with

A header begins with a header word that no word goes on with, with such a word behind the kind of a
grammar, or with an at sign. So its pattern covers at least one character, dropping
headers only leaves characters out, and a text stays as it is exactly if no header begins in it.

- `headers`: the patterns of all headers.
- `HeaderStart`, `headerStart_of_mem_headers`: what they match begins with.
- `stripHeaders_sublist`: dropping headers leaves characters out.
- `HeaderAt`, `stripHeaders_eq_self_iff`: the texts that stay as they are.
-/

namespace GrammarAudit.Grammar

open Text

/-! ## Parts of patterns -/

section Parts

variable {s tail : List Char}

theorem trimStart_suffix (s : List Char) : trimStart s <:+ s :=
  List.dropWhile_suffix _

theorem afterBlanks?_suffix (h : afterBlanks? s = some tail) : tail <:+ s := by
  obtain ⟨space, -, -, rfl⟩ := exists_space_of_afterBlanks? h
  exact List.suffix_append space tail

theorem afterIdentifier?_suffix (h : afterIdentifier? s = some tail) : tail <:+ s := by
  unfold afterIdentifier? at h
  split at h
  · next c rest =>
    split at h
    · cases h
      exact (List.dropWhile_suffix _).trans (List.suffix_cons c rest)
    · cases h
  · cases h

theorem afterMark?_suffix {mark : Char} (h : afterMark? mark s = some tail) : tail <:+ s := by
  have htrim := trimStart_suffix s
  unfold afterMark? at h
  split at h
  · next c rest hrest =>
    split at h
    · cases h
      rw [hrest] at htrim
      exact (List.suffix_cons c _).trans htrim
    · cases h
  · cases h

/-- Matches one after the other. -/
theorem bind_suffix {first : Option (List Char)} {next : List Char → Option (List Char)}
    (hfirst : ∀ r, first = some r → r <:+ s) (hnext : ∀ r r', next r = some r' → r' <:+ r)
    (h : first >>= next = some tail) : tail <:+ s := by
  obtain ⟨r, hr, htail⟩ := Option.bind_eq_some_iff.mp h
  exact (hnext r tail htail).trans (hfirst r hr)

theorem afterNamed?_suffix (h : afterNamed? s = some tail) : tail <:+ s :=
  bind_suffix
    (fun _ => bind_suffix (fun _ => afterBlanks?_suffix) fun _ _ => afterIdentifier?_suffix)
    (fun _ _ => afterMark?_suffix) h

end Parts

/-! ## The ends of words -/

/-- A word cannot go on with this text. -/
def EndsWord (s : List Char) : Prop :=
  s.head?.any isWordChar = false

instance (s : List Char) : Decidable (EndsWord s) :=
  inferInstanceAs (Decidable (_ = false))

theorem endsWord_of_afterBlanks? {s rest : List Char} (h : afterBlanks? s = some rest) :
    EndsWord s := by
  obtain ⟨space, hne, hs, rfl⟩ := exists_space_of_afterBlanks? h
  obtain ⟨c, space, rfl⟩ := List.exists_cons_of_ne_nil hne
  exact not_isWordChar_of_isBlank (hs c List.mem_cons_self)

theorem endsWord_of_afterNamed? {s rest : List Char} (h : afterNamed? s = some rest) :
    EndsWord s := by
  obtain ⟨r, hr, -⟩ := Option.bind_eq_some_iff.mp h
  obtain ⟨r', hr', -⟩ := Option.bind_eq_some_iff.mp hr
  exact endsWord_of_afterBlanks? hr'

theorem endsWord_of_afterMark? {mark : Char} (hmark : isWordChar mark = false)
    {s rest : List Char} (h : afterMark? mark s = some rest) : EndsWord s := by
  cases s with
  | nil => rfl
  | cons c s =>
    by_cases hc : isBlank c = true
    · exact not_isWordChar_of_isBlank hc
    · rw [afterMark?, trimStart, List.dropWhile_cons_of_neg hc] at h
      simp only at h
      split at h
      · next hbrace =>
        rw [hbrace]
        exact hmark
      · cases h

/-! ## The starts of headers -/

/-- The words that headers are named after. -/
def headerWords : List String :=
  ["grammar", "import", "mode", "options", "tokens", "channels"]

/-- The start of a header, with what follows it: a header word, the kind of a grammar and a header
word, or an at sign. -/
inductive HeaderStart : List Char → List Char → Prop where
  | word {word : String} {rest : List Char} :
    word ∈ headerWords → EndsWord rest → HeaderStart (word.toList ++ rest) rest
  | qualified {kind space rest : List Char} :
    IsName kind → space ≠ [] → AllBlank space → EndsWord rest →
      HeaderStart (kind ++ (space ++ ("grammar".toList ++ rest))) rest
  | action {rest : List Char} : HeaderStart ('@' :: rest) rest

/-- A start covers at least one character. -/
theorem HeaderStart.suffix {c : Char} {s rest : List Char} (h : HeaderStart (c :: s) rest) :
    rest <:+ s := by
  generalize htext : c :: s = text at h
  cases h with
  | @word word _ hmem _ =>
    obtain ⟨d, word, hd⟩ : ∃ d w, word.toList = d :: w :=
      List.exists_cons_of_ne_nil fun hnil => by
        simp only [headerWords, List.mem_cons, List.not_mem_nil, or_false] at hmem
        rcases hmem with rfl | rfl | rfl | rfl | rfl | rfl <;> cases hnil
    rw [hd] at htext
    rw [(List.cons.inj htext).2]
    exact List.suffix_append word rest
  | @qualified kind space _ hkind _ _ _ =>
    obtain ⟨d, kind, rfl, -⟩ := hkind.exists_cons
    rw [(List.cons.inj htext).2]
    refine ⟨kind ++ (space ++ "grammar".toList), ?_⟩
    rw [List.append_assoc, List.append_assoc]
    rfl
  | action =>
    obtain ⟨-, rfl⟩ := List.cons.inj htext
    exact List.suffix_rfl

/-- A header word at the start of a text. -/
theorem HeaderStart.of_after? {word : String} {s rest : List Char} (hmem : word ∈ headerWords)
    (h : after? word.toList s = some rest) (hends : EndsWord rest) : HeaderStart s rest := by
  rw [after?_eq_some_iff.mp h]
  exact .word hmem hends

theorem isName_lexerWord : IsName "lexer".toList :=
  ⟨by decide, List.all_eq_true.mp (by decide)⟩

theorem isName_parserWord : IsName "parser".toList :=
  ⟨by decide, List.all_eq_true.mp (by decide)⟩

theorem headerStart_of_afterGrammarWords? {s rest : List Char}
    (h : afterGrammarWords? s = some rest) (hends : EndsWord rest) : HeaderStart s rest := by
  unfold afterGrammarWords? at h
  rcases Option.or_eq_some_iff.mp h with h | ⟨-, h⟩
  · exact .of_after? (by decide) h hends
  obtain ⟨behind, hbehind, hgrammar⟩ := Option.bind_eq_some_iff.mp h
  obtain ⟨gap, hkind, hgap⟩ := Option.bind_eq_some_iff.mp hbehind
  obtain ⟨space, hne, hs, rfl⟩ := exists_space_of_afterBlanks? hgap
  rw [after?_eq_some_iff.mp hgrammar] at hkind
  rcases Option.or_eq_some_iff.mp hkind with hkind | ⟨-, hkind⟩
  · rw [after?_eq_some_iff.mp hkind]
    exact .qualified isName_lexerWord hne hs hends
  · rw [after?_eq_some_iff.mp hkind]
    exact .qualified isName_parserWord hne hs hends

/-! ## The patterns -/

/-- The patterns of all headers, in the order in which they are looked for. -/
def headers : List Pattern :=
  [declaration?, wordBlock? "options", wordBlock? "tokens", namedAction?, importStatement?,
    wordBlock? "channels", modeLine?]

section Patterns

variable {lineStart : Bool} {s tail : List Char}

theorem headerStart_of_declaration? (h : declaration? lineStart s = some tail) :
    ∃ rest, HeaderStart s rest ∧ tail <:+ rest := by
  obtain ⟨rest, hrest, htail⟩ := Option.bind_eq_some_iff.mp h
  exact ⟨rest, headerStart_of_afterGrammarWords? hrest (endsWord_of_afterNamed? htail),
    afterNamed?_suffix htail⟩

theorem headerStart_of_wordBlock? {word : String} (hmem : word ∈ headerWords)
    (h : wordBlock? word lineStart s = some tail) : ∃ rest, HeaderStart s rest ∧ tail <:+ rest := by
  obtain ⟨behind, hbehind, rfl⟩ := Option.map_eq_some_iff.mp h
  obtain ⟨rest, hrest, hmark⟩ := Option.bind_eq_some_iff.mp hbehind
  exact ⟨rest, .of_after? hmem hrest (endsWord_of_afterMark? (by decide) hmark),
    (afterBlock_suffix 1 behind).trans (afterMark?_suffix hmark)⟩

theorem headerStart_of_namedAction? (h : namedAction? lineStart s = some tail) :
    ∃ rest, HeaderStart s rest ∧ tail <:+ rest := by
  obtain ⟨name, hname, h⟩ := Option.bind_eq_some_iff.mp h
  obtain ⟨rest, hrest, hname⟩ := Option.bind_eq_some_iff.mp hname
  obtain ⟨block, hmark, rfl⟩ := Option.map_eq_some_iff.mp h
  have hfull : ((after? [':', ':'] name >>= afterIdentifier?).getD name) <:+ name := by
    cases hsecond : after? [':', ':'] name >>= afterIdentifier? with
    | none => exact List.suffix_rfl
    | some full =>
      exact bind_suffix (fun _ => after?_suffix) (fun _ _ => afterIdentifier?_suffix) hsecond
  have hblock : block <:+ rest :=
    ((afterMark?_suffix hmark).trans hfull).trans (afterIdentifier?_suffix hname)
  rw [after?_eq_some_iff.mp hrest]
  exact ⟨rest, .action, (afterBlock_suffix 1 block).trans hblock⟩

theorem headerStart_of_importStatement? (h : importStatement? lineStart s = some tail) :
    ∃ rest, HeaderStart s rest ∧ tail <:+ rest := by
  obtain ⟨rest, hrest, h⟩ := Option.bind_eq_some_iff.mp h
  dsimp only at h
  split at h
  · next hnames =>
    refine ⟨rest, .of_after? (by decide) hrest ?_, (after?_suffix h).trans (List.drop_suffix _ _)⟩
    -- the names begin with a blank
    cases rest with
    | nil => rfl
    | cons c rest =>
      rw [List.takeWhile_cons] at hnames
      split at hnames
      · exact not_isWordChar_of_isBlank (Bool.and_eq_true_iff.mp hnames).1
      · cases hnames
  · cases h

theorem headerStart_of_modeLine? (h : modeLine? lineStart s = some tail) :
    ∃ rest, HeaderStart s rest ∧ tail <:+ rest := by
  unfold modeLine? at h
  split at h
  · obtain ⟨rest, hrest, htail⟩ := Option.bind_eq_some_iff.mp h
    exact ⟨rest, .of_after? (by decide) hrest (endsWord_of_afterNamed? htail),
      afterNamed?_suffix htail⟩
  · cases h

/-- **What a header begins with.** The pattern of a header covers the start of one. -/
theorem headerStart_of_mem_headers {pattern : Pattern} (hmem : pattern ∈ headers)
    (h : pattern lineStart s = some tail) : ∃ rest, HeaderStart s rest ∧ tail <:+ rest := by
  simp only [headers, List.mem_cons, List.not_mem_nil, or_false] at hmem
  rcases hmem with rfl | rfl | rfl | rfl | rfl | rfl | rfl
  · exact headerStart_of_declaration? h
  · exact headerStart_of_wordBlock? (by decide) h
  · exact headerStart_of_wordBlock? (by decide) h
  · exact headerStart_of_namedAction? h
  · exact headerStart_of_importStatement? h
  · exact headerStart_of_wordBlock? (by decide) h
  · exact headerStart_of_modeLine? h

end Patterns

theorem consuming_of_mem_headers {pattern : Pattern} (hmem : pattern ∈ headers) :
    pattern.Consuming := by
  intro lineStart c rest tail h
  obtain ⟨behind, hstart, htail⟩ := headerStart_of_mem_headers hmem h
  exact htail.trans hstart.suffix

/-! ## Dropping matches -/

/-- Dropping matches only leaves characters out. -/
theorem replaceMatches_nil_sublist {pattern : Pattern} (hp : pattern.Consuming) (lineStart : Bool)
    (s : List Char) : (replaceMatches [] pattern lineStart s).Sublist s := by
  fun_induction replaceMatches [] pattern lineStart s with
  | case1 => exact List.nil_sublist _
  | case2 lineStart c rest tail htail hle ih =>
    exact (ih.trans (hp _ _ _ _ htail).sublist).trans (List.sublist_cons_self c rest)
  | case3 lineStart c rest tail htail hle ih => exact ih.cons_cons c
  | case4 lineStart c rest htail ih => exact ih.cons_cons c

/-- A text keeps all of its characters exactly if the pattern matches nowhere in it. -/
theorem replaceMatches_nil_eq_self_iff {pattern : Pattern} (hp : pattern.Consuming)
    (lineStart : Bool) (s : List Char) :
    replaceMatches [] pattern lineStart s = s ↔
      ∀ i < s.length, pattern (lastIs (· = '\n') lineStart (s.take i)) (s.drop i) = none := by
  induction s generalizing lineStart with
  | nil =>
    rw [replaceMatches]
    exact iff_of_true rfl fun i hi => absurd hi (Nat.not_lt_zero i)
  | cons c rest ih =>
    rw [replaceMatches]
    cases hmatch : pattern lineStart (c :: rest) with
    | none =>
      show c :: replaceMatches [] pattern (c = '\n') rest = c :: rest ↔ _
      rw [List.cons_inj_right, ih]
      constructor
      · intro h i hi
        cases i with
        | zero => exact hmatch
        | succ i => exact h i (Nat.lt_of_succ_lt_succ hi)
      · intro h i hi
        exact h (i + 1) (Nat.succ_lt_succ hi)
    | some tail =>
      have hle : tail.length ≤ rest.length := (hp lineStart c rest tail hmatch).length_le
      simp only [if_pos hle, List.nil_append]
      refine iff_of_false (fun h => ?_) fun h => ?_
      · have hshort := (replaceMatches_nil_sublist hp false tail).length_le
        rw [h, List.length_cons] at hshort
        omega
      · have hnone : pattern lineStart (c :: rest) = none := h 0 (Nat.succ_pos _)
        rw [hmatch] at hnone
        cases hnone

section Several

variable {patterns : List Pattern}

theorem foldl_eraseMatches_sublist (hp : ∀ p ∈ patterns, p.Consuming) (s : List Char) :
    (patterns.foldl (fun text pattern => eraseMatches pattern text) s).Sublist s := by
  induction patterns generalizing s with
  | nil => exact List.Sublist.refl s
  | cons pattern patterns ih =>
    exact (ih (fun p hmem => hp p (List.mem_cons_of_mem _ hmem)) _).trans
      (replaceMatches_nil_sublist (hp _ List.mem_cons_self) true s)

/-- Patterns dropped one after the other leave a text as it is exactly if each of them does. -/
theorem foldl_eraseMatches_eq_self_iff (hp : ∀ p ∈ patterns, p.Consuming) (s : List Char) :
    patterns.foldl (fun text pattern => eraseMatches pattern text) s = s ↔
      ∀ pattern ∈ patterns, eraseMatches pattern s = s := by
  induction patterns with
  | nil => exact iff_of_true rfl fun pattern h => absurd h List.not_mem_nil
  | cons pattern patterns ih =>
    have hrest : ∀ p ∈ patterns, p.Consuming := fun p h => hp p (List.mem_cons_of_mem _ h)
    have hfirst : (eraseMatches pattern s).Sublist s :=
      replaceMatches_nil_sublist (hp _ List.mem_cons_self) true s
    rw [List.foldl_cons, List.forall_mem_cons]
    constructor
    · intro h
      -- what one pattern drops no other brings back
      have hall := (foldl_eraseMatches_sublist hrest (eraseMatches pattern s)).length_le
      rw [h] at hall
      have hsame : eraseMatches pattern s = s := hfirst.eq_of_length_le hall
      rw [hsame] at h
      exact ⟨hsame, (ih hrest).mp h⟩
    · rintro ⟨hsame, h⟩
      rw [hsame]
      exact (ih hrest).mpr h

end Several

/-- **Dropping headers** only leaves characters out. -/
theorem stripHeaders_sublist (s : List Char) : (stripHeaders s).Sublist s :=
  foldl_eraseMatches_sublist (fun _ => consuming_of_mem_headers) s

/-! ## Texts without headers -/

/-- Whether a line starts at a position of a text. -/
def startsLine (s : List Char) (i : Nat) : Bool :=
  lastIs (· = '\n') true (s.take i)

/-- A header begins at a position of a text. -/
def HeaderAt (s : List Char) (i : Nat) : Prop :=
  headers.any (fun pattern => (pattern (startsLine s i) (s.drop i)).isSome) = true

instance (s : List Char) (i : Nat) : Decidable (HeaderAt s i) :=
  inferInstanceAs (Decidable (_ = true))

theorem headerAt_iff {s : List Char} {i : Nat} :
    HeaderAt s i ↔
      ∃ pattern ∈ headers, ∃ tail, pattern (startsLine s i) (s.drop i) = some tail := by
  simp only [HeaderAt, List.any_eq_true, Option.isSome_iff_exists]

/-- **A text stays as it is** exactly if no header begins in it. -/
theorem stripHeaders_eq_self_iff {s : List Char} :
    stripHeaders s = s ↔ ∀ i < s.length, ¬HeaderAt s i := by
  have hall := foldl_eraseMatches_eq_self_iff (fun _ => consuming_of_mem_headers) s
  have hone {pattern : Pattern} (hmem : pattern ∈ headers) : eraseMatches pattern s = s ↔
      ∀ i < s.length, pattern (startsLine s i) (s.drop i) = none :=
    replaceMatches_nil_eq_self_iff (consuming_of_mem_headers hmem) true s
  refine hall.trans ⟨fun h i hi hat => ?_, fun h pattern hmem => (hone hmem).mpr fun i hi => ?_⟩
  · obtain ⟨pattern, hmem, tail, hmatch⟩ := headerAt_iff.mp hat
    rw [(hone hmem).mp (h pattern hmem) i hi] at hmatch
    cases hmatch
  · rw [Option.eq_none_iff_forall_ne_some]
    intro tail hmatch
    exact h i hi (headerAt_iff.mpr ⟨pattern, hmem, tail, hmatch⟩)

end GrammarAudit.Grammar
