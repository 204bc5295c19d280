import GrammarAudit.Proofs.Yaml.DoubleQuoted
import GrammarAudit.Proofs.Yaml.Plain

/-!
# Scanning a block

The scanner stands between two tokens most of the time: outside of flow collections, at a text, with
the tokens so far and the columns of the open blocks. One lemma for each kind of token says where it
stands next, so that the tokens of a text are found from its end back.

- `Scan.between`: the states between two tokens.
- `Scan.Reads`: all tokens that are read from a state on.
- `NextReads`: the same from the end of a line on.
- `reads_key`, `reads_item`, `reads_plain`, `reads_quoted`, `reads_emptyList`: the tokens of a
  block.
- `reads_close`: the end of a block.
-/

namespace GrammarAudit.Yaml

open Cursor

namespace Scan

/-- The state between two tokens, outside of flow collections and with no key begun. -/
def between (c : Cursor) (tokens : List Token) (indent : Int) (outer : List Int)
    (keyAllowed : Bool) : Scan :=
  { cursor := c, tokens, count := tokens.length, indent, outer, keyAllowed }

@[simp] theorem between_cursor (c : Cursor) (tokens : List Token) (indent : Int) (outer : List Int)
    (keyAllowed : Bool) : (between c tokens indent outer keyAllowed).cursor = c := rfl

@[simp] theorem between_depth (c : Cursor) (tokens : List Token) (indent : Int) (outer : List Int)
    (keyAllowed : Bool) : (between c tokens indent outer keyAllowed).depth = 0 := rfl

/-- From a state on, the tokens of the whole document are read. -/
def Reads (s : Scan) (out : List Token) : Prop :=
  -- every token takes a character, the end of the text one step more
  ∀ fuel, s.cursor.left + 2 ≤ fuel → s.all fuel = .ok out

/-- The state before the next token: behind all blanks, with the deeper blocks closed. -/
def prepare (s : Scan) : Except Fault Scan := do
  let s ← (s.toNextToken (s.cursor.left + 1)).dropStale
  return s.unwindTo s.cursor.column

theorem all_succ (s : Scan) (fuel : Nat) : s.all (fuel + 1) = s.prepare >>= fun s =>
    match s.cursor.rest with
    | [] => (s.unwindTo (-1)).dropKey >>= fun s => return s.tokens.reverse
    | x :: _ => s.token x >>= fun s => s.all fuel := by
  rw [all, prepare]
  cases (s.toNextToken (s.cursor.left + 1)).dropStale <;> rfl

variable {s s' t : Scan} {out : List Token} {x : Char} {r : List Char}

/-- One token is read. -/
theorem Reads.of_token (h : t.Reads out) (hprepare : s.prepare = .ok s')
    (hrest : s'.cursor.rest = x :: r) (htoken : s'.token x = .ok t)
    (hless : t.cursor.left < s.cursor.left) : s.Reads out := by
  intro fuel hfuel
  obtain ⟨fuel, rfl⟩ : ∃ k, fuel = k + 1 := ⟨fuel - 1, by omega⟩
  rw [all_succ, hprepare]
  show (match s'.cursor.rest with
    | [] => (s'.unwindTo (-1)).dropKey >>= fun s => return s.tokens.reverse
    | x :: _ => s'.token x >>= fun s => s.all fuel) = _
  rw [hrest]
  show (s'.token x >>= fun s => s.all fuel) = _
  rw [htoken]
  exact h fuel (by omega)

/-- Two states are read alike if they are the same before the next token. -/
theorem Reads.of_prepare (h : s'.Reads out) (hprepare : s.prepare = .ok t)
    (hprepare' : s'.prepare = .ok t) (hle : s'.cursor.left ≤ s.cursor.left) : s.Reads out := by
  intro fuel hfuel
  obtain ⟨fuel, rfl⟩ : ∃ k, fuel = k + 1 := ⟨fuel - 1, by omega⟩
  have hall := h (fuel + 1) (by omega)
  rw [all_succ, hprepare'] at hall
  rw [all_succ, hprepare]
  exact hall

/-! ## Before the next token -/

variable {text rest : List Char} {line column fuel : Nat}

/-- Blanks are passed over. -/
theorem toNextToken_blanks (n : Nat) (rest : List Char) (line column : Nat)
    (hcursor : s.cursor = before (List.replicate n ' ' ++ rest) line column)
    (hrest : ∀ c ∈ rest.head?, isSpacing c = false ∧ c ≠ '#') :
    s.toNextToken (fuel + 1) = s.goto (before rest line (column + n)) := by
  have hskip := skip_blanks (p := (· = ' ')) rfl n rest
    (fun c hc => decide_eq_false fun h => by rw [h] at hc; exact absurd (hrest _ hc).1 (by decide))
    line column
  have hsharp : (before rest line (column + n)).sees (· = '#') = false := by
    show rest.head?.any _ = false
    cases rest with
    | nil => rfl
    | cons c rest => exact decide_eq_false (hrest c rfl).2
  rw [toNextToken, hcursor, hskip, hsharp, if_neg Bool.false_ne_true,
    takeBreak?_eq_none fun c hc => isBreak_of_not_isSpacing (hrest c hc).1]

/-- A line break and an indentation are passed over, and a key may start behind them. -/
theorem toNextToken_freshLine (hcursor : s.cursor = before (freshLine n ++ rest) line column)
    (hdepth : s.depth = 0) (hrest : ∀ c ∈ rest.head?, isSpacing c = false ∧ c ≠ '#') :
    s.toNextToken (fuel + 2) =
      { s with cursor := before rest (line + 1) n, keyAllowed := true } := by
  have hskip : (before (freshLine n ++ rest) line column).skip (· = ' ') =
      before (freshLine n ++ rest) line column := rfl
  have hsharp : (before (freshLine n ++ rest) line column).sees (· = '#') = false := rfl
  have hbreak : (before (freshLine n ++ rest) line column).takeBreak? =
      some ('\n', before (List.replicate n ' ' ++ rest) (line + 1) 0) := takeBreak?_before rfl
  rw [toNextToken, hcursor, hskip, hsharp, if_neg Bool.false_ne_true, hbreak]
  dsimp only
  rw [toNextToken_blanks n rest (line + 1) 0 rfl hrest, hdepth, Nat.zero_add, decide_eq_true rfl,
    Bool.or_true]
  rfl

/-- The places of keys that began on earlier lines are forgotten. -/
theorem dropStale_of_earlier
    (h : ∀ key ∈ s.keys, key.2.required = false ∧ key.2.line ≠ s.cursor.line) :
    s.dropStale = .ok { s with keys := [] } := by
  have hnone : ¬(s.keys.any fun key => s.isStale key.2 && key.2.required) = true := by
    intro hany
    obtain ⟨key, hkey, hrequired⟩ := List.any_eq_true.mp hany
    rw [(h key hkey).1, Bool.and_false] at hrequired
    exact Bool.false_ne_true hrequired
  have hfilter : (s.keys.filter fun key => !s.isStale key.2) = [] := by
    refine List.filter_eq_nil_iff.mpr fun key hkey => ?_
    simp [isStale, (h key hkey).2]
  show (if (s.keys.any fun key => s.isStale key.2 && key.2.required) = true then _ else _) = _
  rw [if_neg hnone]
  exact congrArg (fun keys => Except.ok { s with keys := keys }) hfilter

/-- The place of a key that can still end is kept. -/
theorem dropStale_of_fresh {depth : Nat} {key : KeyMark} (hkeys : s.keys = [(depth, key)])
    (h : s.isStale key = false) : s.dropStale = .ok s := by
  unfold dropStale
  rw [hkeys]
  simp only [List.any_cons, List.any_nil, h, Bool.false_and, Bool.or_false, List.filter_cons,
    Bool.not_false, List.filter_nil, if_neg Bool.false_ne_true, if_true]
  rw [← hkeys]

/-- Blocks that are not deeper than a column stay open. -/
theorem unwindTo_of_le {column : Int} (h : s.indent ≤ column) : s.unwindTo column = s := by
  unfold unwindTo
  split
  · cases houter : s.outer with
    | nil => rw [unwind]
    | cons p outer => rw [unwind, if_neg (Int.not_lt.mpr h)]
  · rfl

section Between

variable {tokens : List Token} {indent p : Int} {outer : List Int} {keyAllowed : Bool}
  {keys : List (Nat × KeyMark)} {n : Nat}

/-- Between two tokens blanks are passed over. -/
theorem prepare_blanks (n : Nat) (hrest : ∀ c ∈ rest.head?, isSpacing c = false ∧ c ≠ '#')
    (hindent : indent ≤ (column + n : Nat)) :
    (between (before (List.replicate n ' ' ++ rest) line column) tokens indent outer
        keyAllowed).prepare =
      .ok (between (before rest line (column + n)) tokens indent outer keyAllowed) := by
  unfold prepare
  rw [toNextToken_blanks n rest line column rfl hrest]
  show Except.ok ((between (before rest line (column + n)) tokens indent outer
    keyAllowed).unwindTo (column + n : Nat)) = _
  rw [unwindTo_of_le hindent]

theorem prepare_between (hrest : ∀ c ∈ rest.head?, isSpacing c = false ∧ c ≠ '#')
    (hindent : indent ≤ column) :
    (between (before rest line column) tokens indent outer keyAllowed).prepare =
      .ok (between (before rest line column) tokens indent outer keyAllowed) :=
  prepare_blanks 0 hrest hindent

/-- At the start of a line deeper blocks are closed. -/
theorem prepare_lineStart (hrest : LineStart rest) :
    (between (before rest line n) tokens indent outer keyAllowed).prepare =
      .ok ((between (before rest line n) tokens indent outer keyAllowed).unwindTo n) := by
  unfold prepare
  rw [toNextToken_blanks 0 rest line n rfl hrest.head]
  rfl

/-- Behind a line break no key is begun any more. -/
theorem prepare_freshLine (hrest : LineStart rest)
    (hkeys : ∀ key ∈ keys, key.2.required = false ∧ key.2.line ≤ line) :
    ({ between (before (freshLine n ++ rest) line column) tokens indent outer keyAllowed with
        keys := keys }).prepare =
      .ok ((between (before rest (line + 1) n) tokens indent outer true).unwindTo n) := by
  have hstale : ({ between (before rest (line + 1) n) tokens indent outer true with
      keys := keys }).dropStale =
      .ok (between (before rest (line + 1) n) tokens indent outer true) := by
    refine dropStale_of_earlier fun key hkey => ⟨(hkeys key hkey).1, ?_⟩
    exact Nat.ne_of_lt (Nat.lt_succ_of_le (hkeys key hkey).2)
  show ((toNextToken _ ((List.replicate n ' ' ++ rest).length + 2)).dropStale >>= _) = _
  rw [toNextToken_freshLine rfl rfl hrest.head]
  show (({ between (before rest (line + 1) n) tokens indent outer true with
      keys := keys }).dropStale >>= _) = _
  rw [hstale]
  rfl

/-- A block ends before a line that is indented less. -/
theorem reads_close (hrest : LineStart rest) (hless : (n : Int) < indent)
    (h : (between (before rest line n) (.blockEnd :: tokens) p outer keyAllowed).Reads out) :
    (between (before rest line n) tokens indent (p :: outer) keyAllowed).Reads out := by
  have hsame : (between (before rest line n) tokens indent (p :: outer) keyAllowed).unwindTo n =
      (between (before rest line n) (.blockEnd :: tokens) p outer keyAllowed).unwindTo n := by
    show unwind n _ (p :: outer) = _
    rw [unwind]
    exact if_pos hless
  have hprepare : (between (before rest line n) tokens indent (p :: outer) keyAllowed).prepare =
      .ok ((between (before rest line n) tokens indent (p :: outer) keyAllowed).unwindTo n) :=
    prepare_lineStart hrest
  rw [hsame] at hprepare
  exact h.of_prepare hprepare (prepare_lineStart hrest) (Nat.le_refl _)

/-- The document ends with its outermost block. -/
theorem reads_done : (between (before [] line 0) tokens 0 [-1] keyAllowed).Reads
    (.blockEnd :: tokens).reverse := by
  intro fuel hfuel
  obtain ⟨fuel, rfl⟩ : ∃ k, fuel = k + 1 := ⟨fuel - 1, by omega⟩
  rw [all_succ, prepare_between LineStart.done.head (Int.le_refl 0)]
  rfl

/-! ## Lines -/

/-- From the end of a line on, the tokens of the whole document are read. The next line starts at a
column up to a bound. -/
def NextReads (bound : Nat) (text : List Char) (tokens : List Token) (indent : Int)
    (outer : List Int) (out : List Token) : Prop :=
  -- the bound tells which blocks are closed by the next line
  ∃ n rest, n ≤ bound ∧ text = freshLine n ++ rest ∧ LineStart rest ∧
    ∀ line, (between (before rest line n) tokens indent outer true).Reads out

theorem NextReads.mono {bound bound' : Nat} (h : NextReads bound text tokens indent outer out)
    (hle : bound ≤ bound') : NextReads bound' text tokens indent outer out := by
  obtain ⟨n, rest, hn, hrest⟩ := h
  exact ⟨n, rest, Nat.le_trans hn hle, hrest⟩

/-- The line ends, and no key that began in it can go on. -/
theorem NextReads.reads {bound : Nat} (h : NextReads bound text tokens indent outer out)
    (hkeys : ∀ key ∈ keys, key.2.required = false ∧ key.2.line ≤ line) :
    ({ between (before text line column) tokens indent outer keyAllowed with
        keys := keys }).Reads out := by
  obtain ⟨n, rest, -, rfl, hrest, hreads⟩ := h
  refine (hreads (line + 1)).of_prepare (prepare_freshLine hrest hkeys) (prepare_lineStart hrest) ?_
  simp [between, freshLine]
  omega

theorem NextReads.reads_between {bound : Nat} (h : NextReads bound text tokens indent outer out) :
    (between (before text line column) tokens indent outer keyAllowed).Reads out :=
  h.reads fun _ hkey => absurd hkey List.not_mem_nil

/-- A block ends with its last line. -/
theorem NextReads.close {bound : Nat} (hbound : (bound : Int) < indent)
    (h : NextReads bound text (.blockEnd :: tokens) p outer out) :
    NextReads bound text tokens indent (p :: outer) out := by
  obtain ⟨n, rest, hn, htext, hrest, hreads⟩ := h
  exact ⟨n, rest, hn, htext, hrest, fun line => reads_close hrest (by omega) (hreads line)⟩

/-- Blanks before a token. -/
theorem reads_blanks (n : Nat) (hrest : ∀ c ∈ rest.head?, isSpacing c = false ∧ c ≠ '#')
    (hindent : indent ≤ (column + n : Nat))
    (h : (between (before rest line (column + n)) tokens indent outer keyAllowed).Reads out) :
    (between (before (List.replicate n ' ' ++ rest) line column) tokens indent outer
      keyAllowed).Reads out := by
  refine h.of_prepare (prepare_blanks n hrest hindent) (prepare_between hrest hindent) ?_
  simp [between]

/-! ## Scalars -/

/-- The place of a key that may start here. -/
def keyMarks (text : List Char) (line column count : Nat) (indent : Int) (keyAllowed : Bool) :
    List (Nat × KeyMark) :=
  if keyAllowed then [(0, ⟨count, decide (indent = column), text.length, line, column⟩)] else []

theorem saveKey_between :
    (between (before text line column) tokens indent outer keyAllowed).saveKey =
      .ok { between (before text line column) tokens indent outer keyAllowed with
        keys := keyMarks text line column tokens.length indent keyAllowed } := by
  cases keyAllowed <;> rfl

theorem plain_of_takePlain {text : List Char} {after : Cursor} {broken : Bool}
    (hsave : s.saveKey = .ok s') (hread : takePlain (s'.depth ≠ 0) (s'.indent + 1) []
      (s'.cursor.left + 1) s'.cursor = (text, after, broken)) :
    s.plain = .ok (({ s' with keyAllowed := broken }.push (.scalar text true)).goto after) := by
  unfold plain
  rw [hsave]
  dsimp only [bind, Except.bind]
  rw [hread]
  rfl

/-- What starts behind the column of its block may be a key, but need not be one. -/
theorem of_mem_keyMarks (hindent : indent < column) :
    ∀ key ∈ keyMarks text line column n indent keyAllowed,
      key.2.required = false ∧ key.2.line = line := by
  intro key hkey
  cases keyAllowed with
  | false => cases hkey
  | true =>
    rw [List.mem_singleton.mp hkey]
    exact ⟨decide_eq_false (by omega), rfl⟩

/-- No mark of a document stands here, if the first character is not the one of the mark. -/
theorem not_atMark {x d : Char} {t w : List Char} {word : String} (hword : word.toList = d :: w)
    (hd : column = 0 → x ≠ d) :
    ¬((before (x :: t) line column).column = 0 ∧
      (before (x :: t) line column).atMark word = true) := by
  rintro ⟨hzero, hmark⟩
  have hstart : (before (x :: t) line column).startsWith word = false := by
    unfold startsWith
    rw [hword, before_rest]
    simp [List.isPrefixOf, (hd hzero).symm]
  rw [atMark, hstart] at hmark
  cases hmark

/-- A text without quotes may start with a character that is no mark, or with a mark that has no
gap behind it. -/
theorem startsPlain_between {x : Char} {t : List Char} (hx : isSpacing x = false)
    (hmark : isFirstIndicator x = false) (hends : x = '-' ∨ x = '?' ∨ x = ':' →
      (before (x :: t) line column).endsAt isSpacing 1 = false) :
    (between (before (x :: t) line column) tokens indent outer keyAllowed).startsPlain = true := by
  by_cases hthree : x = '-' ∨ x = '?' ∨ x = ':'
  · have h := hends hthree
    show ((!isSpacing x && !isIndicator x) ||
      (!(before (x :: t) line column).endsAt isSpacing 1 &&
        (x = '-' || (decide ((0 : Nat) = 0) && (x = '?' || x = ':'))))) = true
    rw [h]
    rcases hthree with rfl | rfl | rfl <;> rfl
  · have hindicator : isIndicator x = false := by
      simp only [not_or] at hthree
      simp [isIndicator, isFirstIndicator] at hmark ⊢
      simp [hmark, hthree]
    show ((!isSpacing x && !isIndicator x) || _) = true
    rw [hx, hindicator]
    rfl

/-- A text without quotes starts with no mark. -/
theorem token_eq_plain {x : Char} {t : List Char} (hx : isSpacing x = false)
    (hmark : isFirstIndicator x = false)
    (hgap : x = '-' ∨ x = '?' ∨ x = ':' → ∃ y u, t = y :: u ∧ isSpacing y = false)
    (hcolumn : column = 0 → x ≠ '-' ∧ x ≠ '.') :
    (between (before (x :: t) line column) tokens indent outer keyAllowed).token x =
      (between (before (x :: t) line column) tokens indent outer keyAllowed).plain := by
  have hne (d : Char) (hd : isFirstIndicator d = true) : x ≠ d := by
    rintro rfl
    exact Bool.false_ne_true (hmark.symm.trans hd)
  have hends (h : x = '-' ∨ x = '?' ∨ x = ':') :
      (before (x :: t) line column).endsAt isSpacing 1 = false := by
    obtain ⟨y, u, rfl, hy⟩ := hgap h
    exact hy
  have hplain : (between (before (x :: t) line column) tokens indent outer keyAllowed).startsPlain =
      true := startsPlain_between hx hmark hends
  have hdash : ¬((before (x :: t) line column).column = 0 ∧
      (before (x :: t) line column).atMark "---" = true) := not_atMark rfl fun h => (hcolumn h).1
  have hpoint : ¬((before (x :: t) line column).column = 0 ∧
      (before (x :: t) line column).atMark "..." = true) := not_atMark rfl fun h => (hcolumn h).2
  have hgaps (d : Char) (hd : d = '-' ∨ d = '?' ∨ d = ':') :
      ¬(x = d ∧ (before (x :: t) line column).endsAt isSpacing 1 = true) := by
    rintro ⟨rfl, hend⟩
    exact Bool.false_ne_true ((hends hd).symm.trans hend)
  unfold token
  rw [between_cursor]
  simp only [between_depth, Bool.and_eq_true, Bool.or_eq_true, decide_eq_true_eq,
    ne_eq, not_true_eq_false, false_or, hne '%' rfl, false_and, hdash, hpoint, hne '[' rfl,
    hne '{' rfl, hne ']' rfl, hne '}' rfl, hne ',' rfl, hgaps '-' (.inl rfl),
    hgaps '?' (.inr (.inl rfl)), hgaps ':' (.inr (.inr rfl)), hne '*' rfl, hne '&' rfl, hne '!' rfl,
    hne '|' rfl, hne '>' rfl, hne '\'' rfl, hne '"' rfl, or_self, hplain, if_false, if_true]

/-- The tokens behind a text without quotes are read from the next line on. -/
theorem reads_of_lineStart (hrest : LineStart rest)
    (hkeys : ∀ key ∈ keys, key.2.required = false ∧ key.2.line < line)
    (h : (between (before rest line n) tokens indent outer true).Reads out) :
    ({ between (before rest line n) tokens indent outer true with keys := keys }).Reads out := by
  refine h.of_prepare ?_ (prepare_lineStart hrest) (Nat.le_refl _)
  have hstale : ({ between (before rest line n) tokens indent outer true with
      keys := keys }).dropStale = .ok (between (before rest line n) tokens indent outer true) :=
    dropStale_of_earlier fun key hkey =>
      ⟨(hkeys key hkey).1, Nat.ne_of_lt (hkeys key hkey).2⟩
  unfold prepare
  rw [toNextToken_blanks 0 rest line n rfl hrest.head]
  show (({ between (before rest line n) tokens indent outer true with
    keys := keys }).dropStale >>= _) = _
  rw [hstale]
  rfl

/-- What is written of a text without quotes starts with no mark. -/
theorem plainText_cons {f : Folding} {s : List Char} (hs : PlainForm s) (start : Nat)
    (rest : List Char) : ∃ x u, plainText f start s ++ rest = x :: u ∧ isSpacing x = false ∧
      isFirstIndicator x = false ∧
      (x = '-' ∨ x = '?' ∨ x = ':' → ∃ y v, u = y :: v ∧ isSpacing y = false) := by
  obtain ⟨x, r, rfl, hx, hmark, hgap⟩ := hs.start_cons
  obtain ⟨previous, column, htext⟩ := foldText_cons (f := f) hx none start r
  refine ⟨x, _, by rw [plainText, htext]; rfl, hx, hmark, fun hthree => ?_⟩
  obtain ⟨y, u, rfl, hy⟩ := hgap hthree
  obtain ⟨_, _, hnext⟩ := foldText_cons (f := f) hy previous column u
  exact ⟨y, _, by rw [hnext]; rfl, hy⟩

/-- A text without quotes, in a block at a column before it. -/
theorem reads_plain {f : Folding} {s : List Char} {i : Nat} (hs : PlainForm s) (hi : i < column)
    (hf : i < f.indent) (h : NextReads i text (.scalar s true :: tokens) i outer out)
    (start : Nat) :
    (between (before (plainText f start s ++ text) line column) tokens i outer keyAllowed).Reads
      out := by
  obtain ⟨n, rest, hn, rfl, hrest, hreads⟩ := h
  obtain ⟨line', hline, hread⟩ := readsPlain_plainText hs (show i + 1 ≤ f.indent from hf) hrest
    (Nat.lt_succ_of_le hn) start [] line column _ hi (Nat.lt_succ_self _)
  obtain ⟨x, u, htext, hx, hmark, hgap⟩ := plainText_cons hs start (freshLine n ++ rest)
  rw [htext] at hread ⊢
  have hhead : ∀ c ∈ (x :: u).head?, isSpacing c = false ∧ c ≠ '#' := by
    intro c hc
    cases hc
    refine ⟨hx, ?_⟩
    rintro rfl
    cases hmark
  have hkeys : ∀ key ∈ keyMarks (x :: u) line column tokens.length i keyAllowed,
      key.2.required = false ∧ key.2.line = line := of_mem_keyMarks (Int.ofNat_lt.mpr hi)
  have hafter : ({ between (before rest line' n) (.scalar s true :: tokens) i outer true with
      keys := keyMarks (x :: u) line column tokens.length i keyAllowed }).Reads out := by
    refine reads_of_lineStart hrest (fun key hkey => ?_) (hreads line')
    obtain ⟨hrequired, hline'⟩ := hkeys key hkey
    exact ⟨hrequired, hline' ▸ hline⟩
  have hindent : (i : Int) ≤ column := Int.ofNat_le.mpr (Nat.le_of_lt hi)
  refine hafter.of_token (prepare_between hhead hindent) rfl ?token ?less
  case token =>
    rw [token_eq_plain hx hmark hgap fun h => by omega]
    exact plain_of_takePlain saveKey_between hread
  case less =>
    rw [between_cursor, between_cursor, ← htext]
    simp [freshLine]
    omega

/-- A text in quotes, in a block at a column before it. -/
theorem reads_quoted {mark : Char} {s : List Char} {i : Nat} (hmark : mark = '\'' ∨ mark = '"')
    (hi : i < column) {bound : Nat} (hless : rest.length < text.length)
    (hread : ReadsQuoted mark text s rest)
    (h : NextReads bound rest (.scalar s false :: tokens) i outer out) :
    (between (before (mark :: text) line column) tokens i outer keyAllowed).Reads out := by
  have hcolumn : TakesColumn mark := by
    rcases hmark with rfl | rfl
    · exact ⟨rfl, by decide⟩
    · exact ⟨rfl, by decide⟩
  have hhead : ∀ c ∈ (mark :: text).head?, isSpacing c = false ∧ c ≠ '#' := by
    intro c hc
    cases hc
    rcases hmark with rfl | rfl
    · decide
    · decide
  have htoken : (between (before (mark :: text) line column) tokens i outer keyAllowed).token mark =
      (between (before (mark :: text) line column) tokens i outer keyAllowed).keyStart fun c =>
        takeQuoted mark (c.left + 1) c.next >>= fun taken =>
          return (.scalar taken.1 false, taken.2) := by
    rcases hmark with rfl | rfl
    · simp [token, atMark, startsWith]
    · simp [token, atMark, startsWith]
  obtain ⟨line', column', hline, htake⟩ := hread line (column + 1) ((mark :: text).length + 1)
    (by simp only [List.length_cons]; omega)
  have hkeys : ∀ key ∈ keyMarks (mark :: text) line column tokens.length i keyAllowed,
      key.2.required = false ∧ key.2.line = line := of_mem_keyMarks (Int.ofNat_lt.mpr hi)
  have hafter : ({ between (before rest line' column') (.scalar s false :: tokens) i outer
      false with
      keys := keyMarks (mark :: text) line column tokens.length i keyAllowed }).Reads out := by
    refine h.reads fun key hkey => ?_
    obtain ⟨hrequired, hline'⟩ := hkeys key hkey
    exact ⟨hrequired, hline' ▸ hline⟩
  have hindent : (i : Int) ≤ column := Int.ofNat_le.mpr (Nat.le_of_lt hi)
  refine hafter.of_token (prepare_between hhead hindent) rfl ?token ?less
  case token =>
    rw [htoken, keyStart, saveKey_between]
    dsimp only [bind, Except.bind]
    rw [between_cursor, before_left, next_before hcolumn, htake]
    rfl
  case less => exact Nat.lt_succ_of_lt hless

/-- An empty list, where no key can start. -/
theorem reads_emptyList {bound : Nat} (hindent : indent ≤ column)
    (h : NextReads bound text (.flowSequenceEnd :: .flowSequenceStart :: tokens) indent outer out) :
    (between (before ('[' :: ']' :: text) line column) tokens indent outer false).Reads out := by
  have hopen : (between (before ('[' :: ']' :: text) line column) tokens indent outer false).token
      '[' = .ok { between (before (']' :: text) line (column + 1)) (.flowSequenceStart :: tokens)
        indent outer true with depth := 1 } := by
    simp [token, atMark, startsWith, flowStart, saveKey, mark, push, goto, between]
    rfl
  have hclose : ({ between (before (']' :: text) line (column + 1)) (.flowSequenceStart :: tokens)
        indent outer true with depth := 1 }).token ']' =
      .ok (between (before text line (column + 2))
        (.flowSequenceEnd :: .flowSequenceStart :: tokens) indent outer false) := by
    simp [token, atMark, startsWith, flowEnd, dropKey, mark, push, goto, between]
    rfl
  have hinside : ({ between (before (']' :: text) line (column + 1)) (.flowSequenceStart :: tokens)
        indent outer true with depth := 1 }).prepare =
      .ok { between (before (']' :: text) line (column + 1)) (.flowSequenceStart :: tokens)
        indent outer true with depth := 1 } := by
    unfold prepare
    rw [toNextToken_blanks 0 (']' :: text) line (column + 1) rfl
      fun c hc => by cases hc; decide]
    rfl
  have hend : (between (before text line (column + 2))
      (.flowSequenceEnd :: .flowSequenceStart :: tokens) indent outer false).Reads out :=
    h.reads_between
  refine (hend.of_token hinside rfl hclose ?_).of_token (prepare_between ?_ hindent) rfl hopen ?_
  · exact Nat.lt_succ_self _
  · intro c hc
    cases hc
    decide
  · exact Nat.lt_succ_self _

/-! ## Keys and items -/

/-- A key ends before a colon and a separator. -/
theorem plainLength_key {key : List Char} (hkey : ∀ c ∈ key, isKeyChar c = true) {c : Char}
    (hc : isSpacing c = true) (t : List Char) :
    plainLength false (key ++ ':' :: c :: t) = key.length := by
  induction key with
  | nil => simp [plainLength, hc]
  | cons x key ih =>
    have hx := hkey x List.mem_cons_self
    have hrange := isKeyChar_range hx
    rw [List.cons_append, plainLength]
    simp only [isSpacing_of_visible (show 0x20 < x.toNat by omega) (by omega),
      decide_eq_false (isKeyChar_ne hx (d := ':') rfl), Bool.false_and, Bool.or_false,
      if_neg Bool.false_ne_true, List.length_cons]
    rw [ih fun d hd => hkey d (List.mem_cons_of_mem x hd)]

/-- A name is read as a text without quotes, up to the colon behind it. -/
theorem takePlain_key {key : List Char} (hne : key ≠ []) (hkey : ∀ c ∈ key, isKeyChar c = true)
    {c : Char} (hc : isSpacing c = true) (column : Int) (line column' fuel : Nat) :
    takePlain false column [] (fuel + 1) (before (key ++ ':' :: c :: text) line column') =
      (key, before (':' :: c :: text) line (column' + key.length), false) := by
  have hcolumns : ∀ d ∈ key, TakesColumn d := fun d hd => by
    have hrange := isKeyChar_range (hkey d hd)
    exact ⟨isBreak_of_not_isSpacing (isSpacing_of_visible (by omega) (by omega)),
      isKeyChar_ne (hkey d hd) (by decide)⟩
  have hsharp : (before (key ++ ':' :: c :: text) line column').sees (· = '#') = false := by
    cases key with
    | nil => exact absurd rfl hne
    | cons x key => exact decide_eq_false (isKeyChar_ne (hkey x List.mem_cons_self) rfl)
  have hspaces (column : Nat) : plainSpaces (before (':' :: c :: text) line column) =
    ([], before (':' :: c :: text) line column, false) := rfl
  rw [takePlain, hsharp, if_neg Bool.false_ne_true, before_rest, plainLength_key hkey hc]
  dsimp only
  rw [if_neg fun h => hne (List.length_eq_zero_iff.mp h), List.take_left, advance_append hcolumns,
    hspaces]
  rfl

/-- The place of the name in front of the cursor is kept. -/
theorem prepare_name {c : Char} {key : KeyMark} (hindent : indent ≤ column)
    (hline : key.line = line) (hlength : key.left - (':' :: c :: text).length ≤ longestKey) :
    ({ between (before (':' :: c :: text) line column) tokens indent outer false with
        keys := [(0, key)] }).prepare =
      .ok { between (before (':' :: c :: text) line column) tokens indent outer false with
        keys := [(0, key)] } := by
  have hfresh : ({ between (before (':' :: c :: text) line column) tokens indent outer false with
      keys := [(0, key)] }).isStale key = false :=
    Bool.or_eq_false_iff.mpr
      ⟨decide_eq_false fun h => h hline, decide_eq_false (Nat.not_lt.mpr hlength)⟩
  have hhead : ∀ d ∈ (':' :: c :: text).head?, isSpacing d = false ∧ d ≠ '#' := by
    intro d hd
    cases hd
    decide
  unfold prepare
  rw [toNextToken_blanks 0 (':' :: c :: text) line column rfl hhead]
  show (({ between (before (':' :: c :: text) line column) tokens indent outer false with
      keys := [(0, key)] }).dropStale >>= _) = _
  rw [dropStale_of_fresh rfl hfresh]
  exact congrArg Except.ok (unwindTo_of_le hindent)

theorem token_colon {c : Char} (hcursor : s.cursor = before (':' :: c :: text) line column)
    (hdepth : s.depth = 0) (hc : isSpacing c = true) : s.token ':' = s.valueMark := by
  have hgap : (before (':' :: c :: text) line column).endsAt isSpacing 1 = true := hc
  have hmark : (before (':' :: c :: text) line column).atMark "---" = false := rfl
  have hpoint : (before (':' :: c :: text) line column).atMark "..." = false := rfl
  simp [token, hcursor, hdepth, hgap, hmark, hpoint]

/-- The name of a field and the colon behind it are read together: the name counts as a key only at
the colon. -/
theorem reads_name {key : List Char} {t : Scan} {c : Char} (hne : key ≠ [])
    (hkey : ∀ c ∈ key, isKeyChar c = true) (hlength : key.length ≤ longestKey)
    (hindent : indent ≤ column) (hc : isSpacing c = true)
    (hmark : ({ between (before (':' :: c :: text) line (column + key.length))
        (.scalar key true :: tokens) indent outer false with
        keys := [(0, ⟨tokens.length, decide (indent = column), (key ++ ':' :: c :: text).length,
          line, column⟩)] }).valueMark = .ok t)
    (hcursor : t.cursor = before (c :: text) line (column + key.length + 1)) (h : t.Reads out) :
    (between (before (key ++ ':' :: c :: text) line column) tokens indent outer true).Reads
      out := by
  obtain ⟨x, r, rfl⟩ := List.exists_cons_of_ne_nil hne
  have hx := hkey x List.mem_cons_self
  have hrange := isKeyChar_range hx
  have hspacing := isSpacing_of_visible (show 0x20 < x.toNat by omega) (by omega)
  have hfirst := isFirstIndicator_of_isKeyChar hx
  have hhead : ∀ c ∈ ((x :: r) ++ ':' :: c :: text).head?, isSpacing c = false ∧ c ≠ '#' := by
    intro d hd
    cases hd
    exact ⟨hspacing, isKeyChar_ne hx rfl⟩
  have hafter := h.of_token (prepare_name (by omega) rfl (by simp at hlength ⊢; omega)) rfl
    ((token_colon rfl rfl hc).trans hmark) (by rw [hcursor]; exact Nat.lt_succ_self _)
  refine hafter.of_token (prepare_between hhead hindent) rfl ?token ?less
  case token =>
    refine (token_eq_plain hspacing hfirst ?gap ?column).trans
      (plain_of_takePlain saveKey_between (takePlain_key hne hkey hc (indent + 1) line column _))
    case gap =>
      rintro (rfl | rfl | rfl)
      · exact absurd hx (by decide)
      · exact absurd hx (by decide)
      · exact absurd hx (by decide)
    case column => exact fun _ => ⟨isKeyChar_ne hx rfl, isKeyChar_ne hx rfl⟩
  case less =>
    show (':' :: c :: text).length < ((x :: r) ++ ':' :: c :: text).length
    rw [List.length_append]
    exact Nat.lt_add_of_pos_left (Nat.succ_pos _)

/-- The name of a field that does not open a block. -/
theorem reads_key {key : List Char} {c : Char} (hne : key ≠ [])
    (hkey : ∀ c ∈ key, isKeyChar c = true) (hlength : key.length ≤ longestKey)
    (hc : isSpacing c = true)
    (h : (between (before (c :: text) line (column + key.length + 1))
      (.value :: .scalar key true :: .key :: tokens) column outer false).Reads out) :
    (between (before (key ++ ':' :: c :: text) line column) tokens column outer true).Reads
      out := by
  refine reads_name hne hkey hlength (Int.le_refl _) hc ?_ ?_ h
  · simp [valueMark, insert, openBlock, mark, push, goto, between]
    rfl
  · rfl

/-- The name of the first field of a block. -/
theorem reads_firstKey {key : List Char} {c : Char} (hne : key ≠ [])
    (hkey : ∀ c ∈ key, isKeyChar c = true) (hlength : key.length ≤ longestKey)
    (hindent : indent < column) (hc : isSpacing c = true)
    (h : (between (before (c :: text) line (column + key.length + 1))
      (.value :: .scalar key true :: .key :: .blockMappingStart :: tokens) column (indent :: outer)
      false).Reads out) :
    (between (before (key ++ ':' :: c :: text) line column) tokens indent outer true).Reads
      out := by
  refine reads_name hne hkey hlength (Int.le_of_lt hindent) hc ?_ ?_ h
  · have htwo : tokens.length + 1 + 1 - tokens.length = 2 := by omega
    simp [valueMark, insert, openBlock, mark, push, goto, between, hindent, htwo]
    rfl
  · rfl

/-- The mark of an item that stands level with the block around it. -/
theorem reads_item (h : (between (before (' ' :: text) line (column + 1)) (.blockEntry :: tokens)
      column outer true).Reads out) :
    (between (before ('-' :: ' ' :: text) line column) tokens column outer true).Reads out := by
  have htoken :
      (between (before ('-' :: ' ' :: text) line column) tokens column outer true).token '-' =
        .ok (between (before (' ' :: text) line (column + 1)) (.blockEntry :: tokens) column outer
          true) := by
    have hgap : (before ('-' :: ' ' :: text) line column).endsAt isSpacing 1 = true := rfl
    have hnomark : (before ('-' :: ' ' :: text) line column).atMark "---" = false := rfl
    have hnopoint : (before ('-' :: ' ' :: text) line column).atMark "..." = false := rfl
    simp [token, hgap, hnomark, hnopoint, blockEntry, openBlock, dropKey, between]
    rfl
  refine h.of_token (prepare_between ?_ (Int.le_refl _)) rfl htoken (Nat.lt_succ_self _)
  intro c hc
  cases hc
  decide

end Between

end Scan

end GrammarAudit.Yaml
