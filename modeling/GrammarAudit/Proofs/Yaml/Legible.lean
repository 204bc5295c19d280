import GrammarAudit.Proofs.Yaml.Block

/-!
# The characters of a document

A document can hold only some characters. What is written of a value consists of such characters:
texts that hold others are written in double quotes, where those are escaped.

- `Legible`: the texts that a document can hold.
- `legible_foldText`, `legible_doubleQuoted`: texts as they are written.
- `legible_of_blocks`: values in block style.
-/

namespace GrammarAudit.Yaml

open Text

/-- A document can hold the text. -/
def Legible (s : List Char) : Prop :=
  ∀ c ∈ s, isAllowed c = true

variable {c : Char} {s t : List Char}

theorem legible_nil : Legible [] :=
  fun _ hc => nomatch hc

theorem Legible.cons (hc : isAllowed c = true) (hs : Legible s) : Legible (c :: s) := by
  intro d hd
  rcases List.mem_cons.mp hd with rfl | hd
  · exact hc
  · exact hs d hd

theorem Legible.append (hs : Legible s) (ht : Legible t) : Legible (s ++ t) :=
  fun c hc => (List.mem_append.mp hc).elim (hs c) (ht c)

theorem legible_replicate (n : Nat) (hc : isAllowed c = true) : Legible (List.replicate n c) :=
  fun d hd => by rwa [List.eq_of_mem_replicate hd]

theorem legible_freshLine (n : Nat) : Legible (freshLine n) :=
  .cons rfl (legible_replicate n rfl)

/-- A visible character of the basic set. -/
theorem isAllowed_of_visible (hlow : 0x20 ≤ c.toNat) (hhigh : c.toNat ≤ 0x7e) :
    isAllowed c = true := by
  simp [isAllowed, hlow, hhigh]

/-- What needs no double quotes can be in a document. -/
theorem isAllowed_of_not_isSpecial (h : isSpecial c = false) : isAllowed c = true := by
  have hfeed : c = '\n' → c.toNat = 0xa := by
    rintro rfl
    rfl
  simp only [isSpecial, Bool.not_eq_false', Bool.or_eq_true, Bool.and_eq_true,
    decide_eq_true_eq] at h
  simp only [isAllowed, Bool.or_eq_true, Bool.and_eq_true, decide_eq_true_eq]
  have hrange := h
  grind

/-! ## Texts -/

variable {f : Folding}

/-- Plain and single-quoted texts consist of their own characters, blanks and line breaks. -/
theorem legible_foldText {shown : Char → List Char}
    (hshown : ∀ c, isAllowed c = true → Legible (shown c)) (hs : Legible s)
    (previous : Option Char) (column : Nat) : Legible (foldText f shown previous column s) := by
  induction s generalizing previous column with
  | nil => exact legible_nil
  | cons c s ih =>
    have hc := hs c List.mem_cons_self
    have hrest := ih fun d hd => hs d (List.mem_cons_of_mem c hd)
    rw [foldText]
    split
    · dsimp only
      split
      · exact (legible_freshLine _).append (hrest _ _)
      · exact .cons hc (hrest _ _)
    split
    · have hextra : Legible (if (decide (c = '\n') && !previous.any breaksLine) = true then ['\n']
          else []) := by
        split
        · exact .cons rfl legible_nil
        · exact legible_nil
      have hindent : Legible (if s.head?.any breaksLine = true then []
          else List.replicate f.indent ' ') := by
        split
        · exact legible_nil
        · exact legible_replicate _ rfl
      exact (hextra.append (.cons hc hindent)).append (hrest _ _)
    · exact (hshown c hc).append (hrest _ _)

theorem isAllowed_of_isHex (h : isHex c = true) : isAllowed c = true := by
  simp only [isHex, Char.isDigit, Bool.or_eq_true, Bool.and_eq_true, decide_eq_true_eq] at h
  rcases h with (⟨hlow, hhigh⟩ | ⟨hlow, hhigh⟩) | ⟨hlow, hhigh⟩
  · exact isAllowed_of_visible (Nat.le_trans (by decide) (show 48 ≤ c.toNat from hlow))
      (Nat.le_trans (show c.toNat ≤ 57 from hhigh) (by decide))
  · exact isAllowed_of_visible (Nat.le_trans (by decide) (show 97 ≤ c.toNat from hlow))
      (Nat.le_trans (show c.toNat ≤ 102 from hhigh) (by decide))
  · exact isAllowed_of_visible (Nat.le_trans (by decide) (show 65 ≤ c.toNat from hlow))
      (Nat.le_trans (show c.toNat ≤ 70 from hhigh) (by decide))

theorem isAllowed_of_isUnescaped (h : isUnescaped c = true) : isAllowed c = true := by
  simp only [isUnescaped, Bool.or_eq_true, Bool.and_eq_true, decide_eq_true_eq] at h
  simp only [isAllowed, Bool.or_eq_true, Bool.and_eq_true, decide_eq_true_eq]
  omega

/-- The escape of a character consists of visible characters. -/
theorem legible_escapeOf (c : Char) : Legible (escapeOf c) := by
  have hdigits (width : Nat) : Legible (padded width ((natNumeral 16 c.toNat).map Char.toUpper)) :=
    (legible_replicate _ rfl).append fun d hd =>
      isAllowed_of_isHex ((hexDigits_natNumeral c.toNat).1 d hd).1
  unfold escapeOf
  split
  · next letter hletter =>
    have hmem := mem_of_lookup hletter
    have hallowed : isAllowed (c.toNat, letter).2 = true := by
      revert hmem
      generalize (c.toNat, letter) = p
      revert p
      decide
    exact .cons rfl (.cons hallowed legible_nil)
  · refine .cons rfl ?_
    unfold codeEscape
    dsimp only
    split
    · exact .cons rfl (hdigits 2)
    split
    · exact .cons rfl (hdigits 4)
    · exact .cons rfl (hdigits 8)

theorem legible_escapedFreshLine (next : Option Char) : Legible (escapedFreshLine f next) := by
  refine .append (.cons rfl (legible_freshLine _)) ?_
  split
  · exact .cons rfl legible_nil
  · exact legible_nil

/-- Between double quotes every text is legible. -/
theorem legible_escapeText (s : List Char) (inside : Bool) (column : Nat) {pending : List Char}
    (hpending : Legible pending) : Legible (escapeText f inside column pending s) := by
  induction s generalizing inside column pending with
  | nil => exact hpending
  | cons c s ih =>
    rw [escapeText]
    dsimp only
    split
    · next hc =>
      have hc := Legible.cons (isAllowed_of_isUnescaped hc) legible_nil
      split
      · exact (hpending.append (legible_escapedFreshLine _)).append (ih _ _ hc)
      · exact ih _ _ (hpending.append hc)
    · have hshown := hpending.append (legible_escapeOf c)
      split
      · exact (hshown.append (legible_escapedFreshLine _)).append (ih _ _ legible_nil)
      · exact hshown.append (ih _ _ legible_nil)

theorem legible_doubleQuoted (column : Nat) (s : List Char) : Legible (doubleQuoted f column s) :=
  (Legible.cons rfl (legible_escapeText s false (column + 1) legible_nil)).append
    (.cons rfl legible_nil)

theorem legible_singleQuoted (column : Nat) (hs : Legible s) :
    Legible (singleQuoted f column s) := by
  have hshown (c : Char) (hc : isAllowed c = true) : Legible (singleQuotedChar c) := by
    unfold singleQuotedChar
    split
    · exact .cons rfl (.cons rfl legible_nil)
    · exact .cons hc legible_nil
  exact (Legible.cons rfl (legible_foldText hshown hs none (column + 1))).append
    (.cons rfl legible_nil)

theorem PlainForm.legible (h : PlainForm s) : Legible s :=
  fun c hc => isAllowed_of_not_isSpecial (h.calm c hc).1

theorem legible_plainText (column : Nat) (h : PlainForm s) : Legible (plainText f column s) :=
  legible_foldText (fun _ hc => .cons hc legible_nil) h.legible none column

/-- A text without special characters. -/
theorem legible_of_not_needsDouble (h : needsDouble s = false) : Legible s := by
  simp only [needsDouble, Bool.or_eq_false_iff] at h
  exact fun c hc =>
    isAllowed_of_not_isSpecial (Bool.eq_false_iff.mpr (List.any_eq_false.mp h.1.1 c hc))

/-! ## Values -/

variable {v : Json} {i : Nat}

theorem legible_writeScalar (hv : Leaf i v) (column : Nat) : Legible (writeScalar f column v) := by
  cases hv with
  | bool b => exact (plainWord_bool b).legible
  | @num n hn =>
    cases n with
    | int n => exact (plainWord_decimal n).legible
    | real x =>
      have hx : x.InFormat := hn
      exact (plainWord_realText hx).legible
  | str s hroom =>
    show Legible (writeText f column s.toList)
    rw [writeText]
    rcases scalarStyle_cases s.toList with ⟨hstyle, hplain⟩ | ⟨hstyle, hsingle⟩ | hstyle
    · rw [hstyle]
      exact legible_plainText column hplain
    · rw [hstyle]
      exact legible_singleQuoted column (legible_of_not_needsDouble hsingle)
    · rw [hstyle]
      exact legible_doubleQuoted column s.toList

/-- A value is legible behind the colon of a field and behind the mark of an item. -/
structure LegibleValue (i : Nat) (v : Json) : Prop where
  behindName : ∀ start, Legible (valueText i start v)
  asItem : (∀ inner, v ≠ .list inner) → Legible (writeBlock (i + 2) v)

theorem legible_leaf (hv : Leaf i v) : LegibleValue i v := by
  constructor
  · intro start
    have htext : Legible (' ' :: writeScalar ⟨i + 2, some 80⟩ start v) :=
      .cons rfl (legible_writeScalar hv start)
    cases hv <;> exact htext
  · intro _
    have htext := legible_writeScalar (f := ⟨i + 2, some 80⟩) hv (i + 2)
    cases hv <;> exact htext

theorem legible_items {items : List Json} (h : ∀ item ∈ items, LegibleValue i item)
    (hflat : ∀ item ∈ items, ∀ inner, item ≠ .list inner) : Legible (writeItems i items) := by
  induction items with
  | nil => exact legible_nil
  | cons item rest ih =>
    have hrest := ih (fun item hitem => h item (List.mem_cons_of_mem _ hitem))
      (fun item hitem => hflat item (List.mem_cons_of_mem _ hitem))
    have hitem := (h item List.mem_cons_self).asItem (hflat item List.mem_cons_self)
    rw [writeItems_cons]
    exact ((legible_freshLine i).append (.cons rfl (.cons rfl hitem))).append hrest

theorem legible_writeField {name : List Char} (hname : IsName name) (hv : LegibleValue i v) :
    Legible (writeField i name v) := by
  rw [writeField_eq i hname]
  exact hname.plainWord.legible.append (.cons rfl (hv.behindName _))

theorem legible_fields {fields : List (String × Json)}
    (hnames : ∀ field ∈ fields, IsName field.1.toList)
    (h : ∀ field ∈ fields, LegibleValue i field.2) : Legible (writeFields i fields) := by
  induction fields with
  | nil => exact legible_nil
  | cons field rest ih =>
    obtain ⟨name, value⟩ := field
    have hrest := ih (fun field hfield => hnames field (List.mem_cons_of_mem _ hfield))
      (fun field hfield => h field (List.mem_cons_of_mem _ hfield))
    have hfield := legible_writeField (hnames _ List.mem_cons_self) (h _ List.mem_cons_self)
    rw [writeFields_cons]
    exact ((legible_freshLine i).append hfield).append hrest

/-- **What is written of a value is legible.** -/
theorem legible_of_blocks (h : Blocks i v) : LegibleValue i v := by
  induction h with
  | leaf hv => exact legible_leaf hv
  | @list column items hflat _ ih =>
    refine ⟨fun start => ?_, fun hlist => absurd rfl (hlist items)⟩
    cases items with
    | nil => exact .cons rfl (.cons rfl (.cons rfl legible_nil))
    | cons item rest => exact legible_items ih hflat
  | @object column fields hne _ hnames _ ih =>
    obtain ⟨⟨name, value⟩, rest, rfl⟩ := List.exists_cons_of_ne_nil hne
    have hfirst := legible_writeField (hnames _ List.mem_cons_self) (ih _ List.mem_cons_self)
    have hrest := legible_fields (fun field hfield => hnames field (List.mem_cons_of_mem _ hfield))
      (fun field hfield => ih field (List.mem_cons_of_mem _ hfield))
    exact ⟨fun start => legible_fields hnames ih, fun _ => hfirst.append hrest⟩

end GrammarAudit.Yaml
