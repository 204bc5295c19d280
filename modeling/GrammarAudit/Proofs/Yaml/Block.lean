import GrammarAudit.Proofs.Yaml.Scanning
import GrammarAudit.Proofs.Yaml.Spelling

/-!
# The tokens of a block

What is written of a value in block style is scanned into the tokens that spell the value out: a
scalar for each leaf, a mark for each item and two marks around each name, and the boundaries of the
mappings, which the indentation gives.

- `IsName`: the names that fields may have here.
- `Leaf`, `Blocks`: the values whose text is scanned so, at a column.
- `blockTokens`: the tokens of a value.
- `reads_leaf`, `nextReads_items`, `nextReads_fields`: a leaf, the items of a list and the fields of
  an object are scanned into their tokens.
- `Scans`, `scans_of_blocks`: a value is scanned into its tokens, wherever it stands.
-/

namespace GrammarAudit.Yaml

open Cursor Scan

-- what a spelling stands for is too much to be unfolded by a unifier
attribute [local irreducible] scalarStyle

/-! ## Values in block style -/

/-- The name of a field: a short word in small letters that stands for itself. -/
def IsName (s : List Char) : Prop :=
  (s ≠ [] ∧ ∀ c ∈ s, isKeyChar c = true) ∧ s.length ≤ longestKey ∧ plainKind s = .text

instance (s : List Char) : Decidable (IsName s) :=
  decidable_of_iff
    ((s ≠ [] ∧ s.all isKeyChar = true) ∧ s.length ≤ longestKey ∧ plainKind s = .text)
    (by rw [IsName, List.all_eq_true])

/-- The values that take no lines of their own, in a block at a column. Further lines of a text are
indented behind it. -/
inductive Leaf (column : Nat) : Json → Prop
  | bool (b : Bool) : Leaf column (.bool b)
  | num {n : Number} (h : n.InFormat) : Leaf column (.num n)
  | str (s : String) (hroom : column + 2 < 80) : Leaf column (.str s)

/-- The values that block style holds in a block at a column. No list is an item of another one. -/
inductive Blocks : Nat → Json → Prop
  | leaf {column : Nat} {value : Json} (h : Leaf column value) : Blocks column value
  | list {column : Nat} {items : List Json} (hflat : ∀ item ∈ items, ∀ inner, item ≠ .list inner)
      (h : ∀ item ∈ items, Blocks column item) : Blocks column (.list items)
  | object {column : Nat} {fields : List (String × Json)} (hne : fields ≠ [])
      (hnodup : (fields.map Prod.fst).Nodup) (hnames : ∀ field ∈ fields, IsName field.1.toList)
      (h : ∀ field ∈ fields, Blocks (column + 2) field.2) : Blocks column (.object fields)

/-- A text as it is read back. -/
def readBack (s : String) : String :=
  if scalarStyle s.toList = .single then String.ofList (settle false s.toList) else s

/-- The text of a leaf as it is read, and whether it has no quotes. -/
def leafText : Json → List Char × Bool
  | .str s => ((readBack s).toList, scalarStyle s.toList = .plain)
  | value => (writeScalar ⟨0, none⟩ 0 value, true)

/-- The token of a leaf. -/
def leafToken (value : Json) : Token :=
  .scalar (leafText value).1 (leafText value).2

mutual

/-- The tokens of a value in a block. The items of a list have no boundaries around them. -/
def blockTokens : Json → List Token
  | .list [] => [.flowSequenceStart, .flowSequenceEnd]
  | .list (item :: rest) => .blockEntry :: (blockTokens item ++ itemTokens rest)
  | .object fields => .blockMappingStart :: (fieldTokens fields ++ [.blockEnd])
  | value => [leafToken value]

/-- The tokens of items. -/
def itemTokens : List Json → List Token
  | [] => []
  | item :: rest => .blockEntry :: (blockTokens item ++ itemTokens rest)

/-- The tokens of fields. -/
def fieldTokens : List (String × Json) → List Token
  | [] => []
  | (name, value) :: rest =>
    .key :: .scalar name.toList true :: .value :: (blockTokens value ++ fieldTokens rest)

end

/-! ## Leaves -/

section Leaves

variable {s : List Char}

theorem plainForm_of_isPlainText (h : isPlainText s = true) : PlainForm s := by
  simp only [isPlainText, Bool.and_eq_true, decide_eq_true_eq, Bool.not_eq_true'] at h
  obtain ⟨⟨⟨⟨⟨hkind, hcalm⟩, hhead⟩, hlast⟩, hstart⟩, hmarks⟩ := h
  refine ⟨?_, fun c hc => ?_, hhead, hlast, hstart, hmarks⟩
  · rintro rfl
    exact absurd hkind (by decide)
  · exact Bool.or_eq_false_iff.mp (Bool.eq_false_iff.mpr (List.any_eq_false.mp hcalm c hc))

theorem isPlainText_of_plainForm (hkind : plainKind s = .text) (h : PlainForm s) :
    isPlainText s = true := by
  have hcalm : s.any (fun c => isSpecial c || breaksLine c) = false := by
    refine List.any_eq_false.mpr fun c hc => ?_
    rw [(h.calm c hc).1, (h.calm c hc).2]
    exact Bool.false_ne_true
  simp [isPlainText, hkind, hcalm, h.head, h.last, h.start, h.marks]

/-- A word is written as it is. -/
theorem plainText_word (f : Folding) (column : Nat) (h : ∀ c ∈ s, isSpacing c = false) :
    plainText f column s = s := by
  obtain ⟨previous, column', htext⟩ :=
    foldText_word (f := f) h [] none column
  rw [List.append_nil] at htext
  rw [plainText, htext, foldText, List.append_nil]

/-- Which style is taken, and what it says about the text. -/
theorem scalarStyle_cases (s : List Char) : (scalarStyle s = .plain ∧ PlainForm s) ∨
    (scalarStyle s = .single ∧ needsDouble s = false) ∨ scalarStyle s = .double := by
  unfold scalarStyle
  by_cases hplain : isPlainText s = true
  · exact .inl ⟨if_pos hplain, plainForm_of_isPlainText hplain⟩
  rw [if_neg hplain]
  by_cases hdouble : needsDouble s = true
  · exact .inr (.inr (if_pos hdouble))
  · exact .inr (.inl ⟨if_neg hdouble, Bool.eq_false_iff.mpr hdouble⟩)

variable {v : Json} {f : Folding} {text : List Char} {tokens out : List Token} {outer : List Int}
  {keyAllowed : Bool} {i line column : Nat}

theorem reads_word (hs : PlainWord s) (hi : i < column)
    (h : NextReads i text (.scalar s true :: tokens) i outer out) :
    (between (before (s ++ text) line column) tokens i outer keyAllowed).Reads out := by
  have hread : (between (before (plainText ⟨i + 1, none⟩ 0 s ++ text) line column) tokens i outer
      keyAllowed).Reads out := reads_plain hs.toPlainForm hi (Nat.lt_succ_self i) h 0
  rwa [plainText_word _ _ hs.isSpacing_eq_false] at hread

theorem length_of_quotes {mark : Char} {w inside : List Char}
    (h : mark :: w ++ [mark] ++ text = mark :: inside) : text.length < inside.length := by
  have hlength := congrArg List.length h
  simp only [List.cons_append, List.length_cons, List.length_append, List.length_nil] at hlength
  omega

/-- A leaf is scanned into its token, behind the column of its block. -/
theorem reads_leaf (hv : Leaf i v) (hi : i < column)
    (h : NextReads i text (leafToken v :: tokens) i outer out) (start : Nat) :
    (between (before (writeScalar ⟨i + 2, some 80⟩ start v ++ text) line column) tokens i outer
      keyAllowed).Reads out := by
  cases hv with
  | bool b => exact reads_word (plainWord_bool b) hi h
  | @num n hn =>
    cases n with
    | int n => exact reads_word (plainWord_decimal n) hi h
    | real x =>
      have hx : x.InFormat := hn
      exact reads_word (plainWord_realText hx) hi h
  | str s hroom =>
    have hnext : text.head? ≠ some '\'' := by
      obtain ⟨n, rest, -, rfl, -⟩ := h
      exact fun hquote => absurd (Option.some.inj hquote) (by decide)
    have hindent : 0 < i + 2 := Nat.succ_pos _
    have hfull : Folding.isFull ⟨i + 2, some 80⟩ (i + 2 + 1) = false :=
      decide_eq_false (Nat.not_lt.mpr hroom)
    have htoken : leafToken (.str s) =
        .scalar (readBack s).toList (scalarStyle s.toList = .plain) := rfl
    have hwrite : writeScalar ⟨i + 2, some 80⟩ start (.str s) =
        writeText ⟨i + 2, some 80⟩ start s.toList := rfl
    rw [htoken, readBack] at h
    rw [hwrite, writeText]
    rcases scalarStyle_cases s.toList with ⟨hstyle, hplain⟩ | ⟨hstyle, hsingle⟩ | hstyle
    · rw [hstyle] at h ⊢
      exact reads_plain hplain hi (Nat.lt_add_of_pos_right (by decide)) h start
    · rw [hstyle, if_pos rfl, String.toList_ofList] at h
      rw [hstyle]
      dsimp only
      obtain ⟨inside, htext, hread⟩ :=
        readsQuoted_singleQuoted (f := ⟨i + 2, some 80⟩) hindent hnext hsingle start
      have hless : text.length < inside.length := length_of_quotes htext
      rw [htext]
      exact reads_quoted (.inl rfl) hi hless hread h
    · rw [hstyle] at h ⊢
      dsimp only
      obtain ⟨inside, htext, hread⟩ :=
        readsQuoted_doubleQuoted (f := ⟨i + 2, some 80⟩) hindent hfull start s.toList text
      have hless : text.length < inside.length := length_of_quotes htext
      rw [htext]
      exact reads_quoted (.inr rfl) hi hless hread h

end Leaves

/-! ## Names -/

section Names

variable {name : List Char} (hname : IsName name)

include hname

theorem IsName.plainWord : PlainWord name := by
  obtain ⟨⟨hne, hletters⟩, -, -⟩ := hname
  have hvisible : ∀ c ∈ name, 0x5f ≤ c.toNat ∧ c.toNat ≤ 0x7a :=
    fun c hc => isKeyChar_range (hletters c hc)
  have hnot (d : Char) (hd : isKeyChar d = false) : d ∉ name :=
    fun hmem => Bool.false_ne_true (hd.symm.trans (hletters d hmem))
  have hlast : name.getLast? ≠ some ':' :=
    fun h => hnot ':' rfl (List.mem_of_getLast? h)
  refine ⟨⟨hne, fun c hc => ⟨?_, ?_⟩, ?_, ?_, ?_, ?_⟩, hnot ' ' rfl⟩
  · have hrange := hvisible c hc
    exact isSpecial_of_visible ⟨by omega, by omega⟩
  · have hrange := hvisible c hc
    rw [breaksLine, isBreak_of_not_isSpacing (isSpacing_of_visible (by omega) (by omega)),
      Bool.false_and]
  · exact fun h => hnot ' ' rfl (List.mem_of_mem_head? h)
  · exact fun h => hnot ' ' rfl (List.mem_of_getLast? h)
  · obtain ⟨x, r, rfl⟩ := List.exists_cons_of_ne_nil hne
    have hx := hletters x List.mem_cons_self
    simp [startsLikeMark, isFirstIndicator_of_isKeyChar hx, List.isPrefixOf,
      isKeyChar_ne hx (d := '?') rfl, isKeyChar_ne hx (d := '-') rfl,
      (isKeyChar_ne hx (d := '-') rfl).symm, (isKeyChar_ne hx (d := '.') rfl).symm]
  · rw [holdsMark, hasPair_of_not_mem (hnot ':' rfl), hasPair_of_not_mem (hnot ' ' rfl),
      decide_eq_false hlast]
    rfl

/-- A name is written as it is. -/
theorem writeKey_name : writeKey name = name := by
  have hword := hname.plainWord
  have hstyle : scalarStyle name = .plain := by
    unfold scalarStyle
    exact if_pos (isPlainText_of_plainForm hname.2.2 hword.toPlainForm)
  rw [writeKey, hstyle]
  exact plainText_word _ _ hword.isSpacing_eq_false

end Names

/-! ## Blocks -/

/-- The text of a field behind the colon. -/
def valueText (column start : Nat) : Json → List Char
  | .list (item :: rest) => writeItems column (item :: rest)
  | .object (field :: rest) => writeFields (column + 2) (field :: rest)
  | value => ' ' :: writeScalar ⟨column + 2, some 80⟩ start value

/-- Items and fields begin with a line break wherever they stand. -/
theorem writeItems_cons (column : Nat) (item : Json) (rest : List Json) :
    writeItems column (item :: rest) =
      freshLine column ++ '-' :: ' ' :: writeBlock (column + 2) item ++ writeItems column rest :=
  rfl

theorem writeFields_cons (column : Nat) (name : String) (value : Json)
    (rest : List (String × Json)) :
    writeFields column ((name, value) :: rest) =
      freshLine column ++ writeField column name.toList value ++ writeFields column rest := rfl

theorem writeField_eq (column : Nat) {name : List Char} (hname : IsName name) (value : Json) :
    writeField column name value =
      name ++ ':' :: valueText column (column + name.length + 2) value := by
  have hkey := writeKey_name hname
  have hwrite : writeField column name value = writeKey name ++
      ':' :: valueText column (column + (writeKey name).length + 2) value := by
    rcases value with _ | _ | _ | _ | (_ | ⟨item, rest⟩) | (_ | ⟨⟨inner, first⟩, rest⟩)
    case list.cons =>
      show writeKey name ++ ':' :: freshLine column ++ '-' :: ' ' :: writeBlock (column + 2) item ++
        writeItems column rest = writeKey name ++ ':' :: writeItems column (item :: rest)
      rw [writeItems_cons]
      simp only [List.append_assoc, List.cons_append]
    case object.cons =>
      show writeKey name ++ ':' :: freshLine (column + 2) ++
        writeField (column + 2) inner.toList first ++ writeFields (column + 2) rest =
        writeKey name ++ ':' :: writeFields (column + 2) ((inner, first) :: rest)
      rw [writeFields_cons]
      simp only [List.append_assoc, List.cons_append]
    all_goals
      rfl
  rw [hwrite, hkey]

/-- Behind the colon stands a separator. -/
theorem valueText_cons (column start : Nat) (value : Json) :
    ∃ c t, valueText column start value = c :: t ∧ isSpacing c = true := by
  rcases value with _ | _ | _ | _ | (_ | ⟨item, rest⟩) | (_ | ⟨⟨inner, first⟩, rest⟩)
  case list.cons =>
    exact ⟨'\n', List.replicate column ' ' ++ '-' :: ' ' :: writeBlock (column + 2) item ++
      writeItems column rest, writeItems_cons column item rest, rfl⟩
  case object.cons =>
    exact ⟨'\n', List.replicate (column + 2) ' ' ++ writeField (column + 2) inner.toList first ++
      writeFields (column + 2) rest, writeFields_cons (column + 2) inner first rest, rfl⟩
  all_goals
    exact ⟨' ', _, rfl, rfl⟩

/-! ## Scanning a value -/

section Scanned

variable {v : Json} {text : List Char} {tokens out : List Token} {outer : List Int}
  {i line column : Nat}

/-- In a block at a column, a value is scanned into its tokens: behind the colon of a field, or
behind the mark of an item if it is no list. -/
structure Scans (out : List Token) (i : Nat) (v : Json) : Prop where
  behindName : ∀ {text tokens outer},
    NextReads i text ((blockTokens v).reverse ++ tokens) i outer out →
    ∀ line column start, i < column →
      (between (before (valueText i start v ++ text) line column) tokens i outer false).Reads out
  asItem : ∀ {text tokens outer}, NextReads i text ((blockTokens v).reverse ++ tokens) i outer out →
    (∀ inner, v ≠ .list inner) → ∀ line,
      (between (before (writeBlock (i + 2) v ++ text) line (i + 2)) tokens i outer true).Reads out
  head : (∀ inner, v ≠ .list inner) → ∀ (text : List Char),
    ∀ c ∈ (writeBlock (i + 2) v ++ text).head?, isSpacing c = false ∧ c ≠ '#'

/-- What is written without quotes starts neither with a blank nor with a comment. -/
theorem head_plainText {f : Folding} {s : List Char} (hs : PlainForm s) (start : Nat)
    (text : List Char) :
    ∀ c ∈ (plainText f start s ++ text).head?, isSpacing c = false ∧ c ≠ '#' := by
  obtain ⟨x, u, htext, hx, hmark, -⟩ := plainText_cons (f := f) hs start text
  intro c hc
  rw [htext] at hc
  cases hc
  refine ⟨hx, ?_⟩
  rintro rfl
  cases hmark

theorem head_word {s : List Char} (hs : PlainWord s) (text : List Char) :
    ∀ c ∈ (s ++ text).head?, isSpacing c = false ∧ c ≠ '#' := by
  have h := head_plainText (f := ⟨0, none⟩) hs.toPlainForm 0 text
  rwa [plainText_word _ _ hs.isSpacing_eq_false] at h

theorem head_writeScalar {f : Folding} (hv : Leaf i v) (start : Nat) (text : List Char) :
    ∀ c ∈ (writeScalar f start v ++ text).head?, isSpacing c = false ∧ c ≠ '#' := by
  cases hv with
  | bool b => exact head_word (plainWord_bool b) text
  | @num n hn =>
    cases n with
    | int n => exact head_word (plainWord_decimal n) text
    | real x =>
      have hx : x.InFormat := hn
      exact head_word (plainWord_realText hx) text
  | str s hroom =>
    show ∀ c ∈ (writeText f start s.toList ++ text).head?, _
    rw [writeText]
    rcases scalarStyle_cases s.toList with ⟨hstyle, hplain⟩ | ⟨hstyle, -⟩ | hstyle
    · rw [hstyle]
      exact head_plainText hplain start text
    · rw [hstyle]
      intro c hc
      cases hc
      decide
    · rw [hstyle]
      intro c hc
      cases hc
      decide

theorem scans_leaf (hv : Leaf i v) : Scans out i v where
  behindName := by
    intro text tokens outer h line column start hcolumn
    have hleaf : (between (before (writeScalar ⟨i + 2, some 80⟩ start v ++ text) line (column + 1))
        tokens i outer false).Reads out :=
      reads_leaf hv (by omega) (by cases hv <;> exact h) start
    have hblank := reads_blanks 1 (head_writeScalar hv start text) (by omega) hleaf
    cases hv <;> exact hblank
  asItem := by
    intro text tokens outer h hlist line
    have hleaf : (between (before (writeScalar ⟨i + 2, some 80⟩ (i + 2) v ++ text) line (i + 2))
        tokens i outer true).Reads out :=
      reads_leaf hv (by omega) (by cases hv <;> exact h) (i + 2)
    cases hv <;> exact hleaf
  head := by
    intro _ text
    have hhead := head_writeScalar (f := ⟨i + 2, some 80⟩) hv (i + 2) text
    cases hv <;> exact hhead

/-- Items are scanned one after another. -/
theorem nextReads_items {items : List Json} (h : ∀ item ∈ items, Scans out i item)
    (hflat : ∀ item ∈ items, ∀ inner, item ≠ .list inner)
    (hnext : NextReads i text ((itemTokens items).reverse ++ tokens) i outer out) :
    NextReads i (writeItems i items ++ text) tokens i outer out := by
  induction items generalizing tokens with
  | nil => exact hnext
  | cons item rest ih =>
    have htokens : (itemTokens (item :: rest)).reverse ++ tokens =
        (itemTokens rest).reverse ++ ((blockTokens item).reverse ++ .blockEntry :: tokens) := by
      show (Token.blockEntry :: (blockTokens item ++ itemTokens rest)).reverse ++ tokens = _
      simp
    rw [htokens] at hnext
    have hrest := ih (fun item hitem => h item (List.mem_cons_of_mem _ hitem))
      (fun item hitem => hflat item (List.mem_cons_of_mem _ hitem)) hnext
    have hitem := (h item List.mem_cons_self).asItem hrest (hflat item List.mem_cons_self)
    refine ⟨i, '-' :: ' ' :: (writeBlock (i + 2) item ++ (writeItems i rest ++ text)),
      Nat.le_refl i, ?_, .item _, fun line => ?_⟩
    · rw [writeItems_cons]
      simp only [List.append_assoc, List.cons_append]
    · refine reads_item (reads_blanks 1 ?_ (by omega) (hitem line))
      exact (h item List.mem_cons_self).head (hflat item List.mem_cons_self) _

/-- A field is its name, a colon and a separator before the value. -/
theorem writeField_append {name : List Char} (hname : IsName name) (value : Json)
    (text : List Char) : ∃ c t, isSpacing c = true ∧
      valueText i (i + name.length + 2) value ++ text = c :: t ∧
      writeField i name value ++ text = name ++ ':' :: c :: t := by
  obtain ⟨c, t, htext, hc⟩ := valueText_cons i (i + name.length + 2) value
  refine ⟨c, t ++ text, hc, ?_, ?_⟩
  · rw [htext, List.cons_append]
  · rw [writeField_eq i hname, htext, List.append_assoc, List.cons_append, List.cons_append]

/-- The name of the first field opens the block. -/
theorem reads_firstField {name : List Char} {value : Json} {p : Int} (hname : IsName name)
    (hp : p < i) (h : ∀ line column start, i < column →
      (between (before (valueText i start value ++ text) line column)
        (.value :: .scalar name true :: .key :: .blockMappingStart :: tokens) i (p :: outer)
        false).Reads out) :
    (between (before (writeField i name value ++ text) line i) tokens p outer true).Reads out := by
  obtain ⟨⟨hne, hletters⟩, hlength, -⟩ := id hname
  obtain ⟨c, t, hc, htext, hfield⟩ := writeField_append (i := i) hname value text
  have hvalue := h line (i + name.length + 1) (i + name.length + 2) (by omega)
  rw [htext] at hvalue
  rw [hfield]
  exact reads_firstKey hne hletters hlength hp hc hvalue

/-- The name of a further field. -/
theorem reads_laterField {name : List Char} {value : Json} (hname : IsName name)
    (h : ∀ line column start, i < column →
      (between (before (valueText i start value ++ text) line column)
        (.value :: .scalar name true :: .key :: tokens) i outer false).Reads out) :
    (between (before (writeField i name value ++ text) line i) tokens i outer true).Reads out := by
  obtain ⟨⟨hne, hletters⟩, hlength, -⟩ := id hname
  obtain ⟨c, t, hc, htext, hfield⟩ := writeField_append (i := i) hname value text
  have hvalue := h line (i + name.length + 1) (i + name.length + 2) (by omega)
  rw [htext] at hvalue
  rw [hfield]
  exact reads_key hne hletters hlength hc hvalue

/-- A field starts with its name. -/
theorem lineStart_writeField {name : List Char} (hname : IsName name) (value : Json)
    (rest : List Char) : LineStart (writeField i name value ++ rest) := by
  obtain ⟨x, r, rfl⟩ := List.exists_cons_of_ne_nil hname.1.1
  rw [writeField_eq i hname]
  exact .key (hname.1.2 x List.mem_cons_self) _

theorem reverse_fieldTokens (name : String) (value : Json) (rest : List (String × Json))
    (tokens : List Token) : (fieldTokens ((name, value) :: rest)).reverse ++ tokens =
      (fieldTokens rest).reverse ++ ((blockTokens value).reverse ++
        .value :: .scalar name.toList true :: .key :: tokens) := by
  show (Token.key :: .scalar name.toList true :: .value ::
    (blockTokens value ++ fieldTokens rest)).reverse ++ tokens = _
  simp

/-- Fields are scanned one after another. -/
theorem nextReads_fields {fields : List (String × Json)} (h : ∀ field ∈ fields, Scans out i field.2)
    (hnames : ∀ field ∈ fields, IsName field.1.toList)
    (hnext : NextReads i text ((fieldTokens fields).reverse ++ tokens) i outer out) :
    NextReads i (writeFields i fields ++ text) tokens i outer out := by
  induction fields generalizing tokens with
  | nil => exact hnext
  | cons field rest ih =>
    obtain ⟨name, value⟩ := field
    have hname : IsName name.toList := hnames _ List.mem_cons_self
    rw [reverse_fieldTokens] at hnext
    have hrest := ih (fun field hfield => h field (List.mem_cons_of_mem _ hfield))
      (fun field hfield => hnames field (List.mem_cons_of_mem _ hfield)) hnext
    refine ⟨i, writeField i name.toList value ++ (writeFields i rest ++ text), Nat.le_refl i, ?_,
      lineStart_writeField hname value _, fun line => ?_⟩
    · rw [writeFields_cons]
      simp only [List.append_assoc]
    · exact reads_laterField hname ((h _ List.mem_cons_self).behindName hrest)

theorem scans_list {items : List Json} (hflat : ∀ item ∈ items, ∀ inner, item ≠ .list inner)
    (h : ∀ item ∈ items, Scans out i item) : Scans out i (.list items) where
  behindName := by
    intro text tokens outer hnext line column start hcolumn
    cases items with
    | nil =>
      have hbracket : ∀ c ∈ ('[' :: ']' :: text).head?, isSpacing c = false ∧ c ≠ '#' := by
        intro c hc
        cases hc
        decide
      exact reads_blanks 1 hbracket (by omega) (reads_emptyList (by omega) hnext)
    | cons item rest =>
      exact (nextReads_items h hflat hnext).reads_between
  asItem _ hlist := absurd rfl (hlist items)
  head hlist := absurd rfl (hlist items)

/-- The fields of an object are scanned inside of a block of their own. -/
theorem scans_object {fields : List (String × Json)} (hne : fields ≠ [])
    (hnames : ∀ field ∈ fields, IsName field.1.toList)
    (h : ∀ field ∈ fields, Scans out (i + 2) field.2) : Scans out i (.object fields) := by
  obtain ⟨⟨name, value⟩, rest, rfl⟩ := List.exists_cons_of_ne_nil hne
  have hname : IsName name.toList := hnames _ List.mem_cons_self
  -- wherever the object stands, its block is opened by its first field and closed by what follows
  have hfirst {text tokens outer} (hnext : NextReads i text
      ((blockTokens (.object ((name, value) :: rest))).reverse ++ tokens) i outer out)
      (line : Nat) :
      (between (before (writeField (i + 2) name.toList value ++ (writeFields (i + 2) rest ++ text))
        line (i + 2)) tokens i outer true).Reads out := by
    have htokens : (blockTokens (.object ((name, value) :: rest))).reverse ++ tokens =
        .blockEnd :: ((fieldTokens ((name, value) :: rest)).reverse ++
          .blockMappingStart :: tokens) := by
      show (Token.blockMappingStart ::
        (fieldTokens ((name, value) :: rest) ++ [.blockEnd])).reverse ++ tokens = _
      simp
    rw [htokens, reverse_fieldTokens] at hnext
    have hdeeper : (i : Int) < (i + 2 : Nat) := by omega
    have hinside := (hnext.close hdeeper).mono (Nat.le_add_right i 2)
    have hrest := nextReads_fields (fun field hfield => h field (List.mem_cons_of_mem _ hfield))
      (fun field hfield => hnames field (List.mem_cons_of_mem _ hfield)) hinside
    exact reads_firstField hname (by omega) ((h _ List.mem_cons_self).behindName hrest)
  constructor
  · intro text tokens outer hnext line column start hcolumn
    have hnew : NextReads (i + 2) (valueText i start (.object ((name, value) :: rest)) ++ text)
        tokens i outer out := by
      refine ⟨i + 2, _, Nat.le_refl _, ?_, lineStart_writeField hname value _, hfirst hnext⟩
      show writeFields (i + 2) ((name, value) :: rest) ++ text = _
      rw [writeFields_cons]
      simp only [List.append_assoc]
    exact hnew.reads_between
  · intro text tokens outer hnext _ line
    have hread := hfirst hnext line
    rw [← List.append_assoc] at hread
    exact hread
  · intro _ text
    have hhead := (lineStart_writeField (i := i + 2) hname value
      (writeFields (i + 2) rest ++ text)).head
    rw [← List.append_assoc] at hhead
    exact hhead

/-- **A value is scanned into its tokens.** -/
theorem scans_of_blocks (h : Blocks i v) : Scans out i v := by
  induction h with
  | leaf h => exact scans_leaf h
  | list hflat _ ih => exact scans_list hflat ih
  | object hne _ hnames _ ih => exact scans_object hne hnames ih

end Scanned

end GrammarAudit.Yaml
