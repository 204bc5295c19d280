import GrammarAudit.Proofs.Grammar.Header
import GrammarAudit.Proofs.Grammar.Printing

/-!
# Header words in rules

Headers are looked for anywhere in a text, also in the tail of a longer word and inside literals,
character sets and actions. So where no header word stands in code as a whole word, and no at sign,
these are the places left for a header, and the text stays as it is exactly if no header begins in
one of them.

- `InCode`, `InWord`: where a position of a text stands.
- `FreeOfHeaderWords`, `Covered`: the texts in question, and the places left for a header in them.
- `covered_of_headerAt`: a header begins in no other place of such a text.
- `stripHeaders_of_free`: the exact condition under which such a text stays as it is.
-/

namespace GrammarAudit.Grammar

open Text

/-! ## Positions -/

/-- A position outside literals, character sets and actions. -/
def InCode (s : List Char) (i : Nat) : Prop :=
  Context.code.after (s.take i) = .code

instance (s : List Char) (i : Nat) : Decidable (InCode s i) :=
  inferInstanceAs (Decidable (_ = Context.code))

/-- A position right behind a word character. -/
def InWord (s : List Char) (i : Nat) : Prop :=
  lastIs isWordChar false (s.take i) = true

instance (s : List Char) (i : Nat) : Decidable (InWord s i) :=
  inferInstanceAs (Decidable (_ = true))

/-- A word stands at a position of a text, and no longer word around it. -/
def StandsAt (word : String) (s : List Char) (i : Nat) : Prop :=
  ¬InWord s i ∧ word.toList <+: s.drop i ∧ EndsWord (s.drop (i + word.toList.length))

instance (word : String) (s : List Char) (i : Nat) : Decidable (StandsAt word s i) :=
  inferInstanceAs (Decidable (_ ∧ _))

/-- No header word stands in code as a whole word, and no at sign stands in code. -/
def FreeOfHeaderWords (s : List Char) : Prop :=
  ∀ i < s.length, InCode s i → (∀ word ∈ headerWords, ¬StandsAt word s i) ∧ s[i]? ≠ some '@'

instance (s : List Char) : Decidable (FreeOfHeaderWords s) :=
  inferInstanceAs (Decidable (∀ i < s.length, _))

/-- A position inside a literal, a character set or an action, or inside a word behind its first
character. -/
def Covered (s : List Char) (i : Nat) : Prop :=
  ¬InCode s i ∨ InWord s i

instance (s : List Char) (i : Nat) : Decidable (Covered s i) :=
  inferInstanceAs (Decidable (_ ∨ _))

/-! ## Positions of header words -/

theorem standsAt_of_drop_eq {word : String} {s rest : List Char} {i : Nat} (hword : ¬InWord s i)
    (hdrop : s.drop i = word.toList ++ rest) (hends : EndsWord rest) : StandsAt word s i := by
  refine ⟨hword, hdrop ▸ List.prefix_append _ _, ?_⟩
  rw [← List.drop_drop, hdrop, List.drop_left]
  exact hends

/-- Code goes on behind plain characters. -/
theorem InCode.add {s u rest : List Char} {i : Nat} (h : InCode s i) (hu : ∀ c ∈ u, IsPlain c)
    (hdrop : s.drop i = u ++ rest) : InCode s (i + u.length) := by
  unfold InCode
  rw [List.take_add, hdrop, List.take_left, Context.after_append, h]
  exact (closed_of_plain hu).2

/-- No word goes on behind blanks. -/
theorem not_inWord_add {s u space rest : List Char} {i : Nat} (hne : space ≠ [])
    (hs : AllBlank space) (hdrop : s.drop i = (u ++ space) ++ rest) :
    ¬InWord s (i + (u ++ space).length) := by
  have hlast : lastIs isWordChar false (s.take i ++ (u ++ space)) = false := by
    rw [← List.dropLast_concat_getLast hne, ← List.append_assoc, ← List.append_assoc,
      lastIs_append, lastIs_cons, not_isWordChar_of_isBlank (hs _ (List.getLast_mem hne))]
    rfl
  rw [InWord, List.take_add, hdrop, List.take_left, hlast]
  exact Bool.false_ne_true

/-- **Where headers begin.** Where no header word stands in code, a header can only begin inside a
longer word, a literal, a character set or an action. -/
theorem covered_of_headerAt {s : List Char} {i : Nat} (clean : FreeOfHeaderWords s)
    (hi : i < s.length) (hat : HeaderAt s i) : Covered s i := by
  obtain ⟨pattern, hmem, tail, hmatch⟩ := headerAt_iff.mp hat
  obtain ⟨rest, hstart, -⟩ := headerStart_of_mem_headers hmem hmatch
  refine Decidable.byContradiction fun hfree => ?_
  obtain ⟨hcode, hword⟩ : InCode s i ∧ ¬InWord s i := by
    rwa [Covered, not_or, Decidable.not_not] at hfree
  generalize hdrop : s.drop i = text at hstart
  cases hstart with
  | @word word _ hheader hends =>
    exact (clean i hi hcode).1 word hheader (standsAt_of_drop_eq hword hdrop hends)
  | @qualified kind space _ hkind hne hs hends =>
    -- the word for a grammar stands in code, behind the blanks
    rw [← List.append_assoc] at hdrop
    let j := i + (kind ++ space).length
    have hplain : ∀ c ∈ kind ++ space, IsPlain c := by
      intro c hc
      rcases List.mem_append.mp hc with hc | hc
      · exact isPlain_of_isIdentChar (hkind.2 c hc)
      · exact isPlain_of_isBlank (hs c hc)
    have hbehind : s.drop j = "grammar".toList ++ rest := by
      rw [← List.drop_drop, hdrop, List.drop_left]
    have hj : j < s.length := by
      refine Nat.lt_of_not_le fun hle => ?_
      rw [List.drop_eq_nil_of_le hle] at hbehind
      cases hbehind
    exact (clean j hj (hcode.add hplain hdrop)).1 "grammar" (by decide)
      (standsAt_of_drop_eq (not_inWord_add hne hs hdrop) hbehind hends)
  | action =>
    exact (clean i hi hcode).2 (by rw [← List.head?_drop, hdrop]; rfl)

/-! ## Texts that stay as they are -/

/-- **Header words in rules.** A text in which no header word stands in code as a whole word, and no
at sign, keeps all of its characters exactly if no header begins inside a longer word, a literal, a
character set or an action. -/
theorem stripHeaders_of_free {s : List Char} (clean : FreeOfHeaderWords s) :
    stripHeaders s = s ↔ ∀ i < s.length, Covered s i → ¬HeaderAt s i := by
  rw [stripHeaders_eq_self_iff]
  constructor
  · intro h i hi _
    exact h i hi
  · intro h i hi hat
    exact h i hi (covered_of_headerAt clean hi hat) hat

/-- Header words without what belongs to a header do no harm in longer words and in literals. -/
theorem stripHeaders_of_free_words :
    let s := ([⟨"a".toList, " important modes 'grammar' ".toList, false⟩,
      ⟨"B".toList, " [@] ".toList, true⟩] : List Definition).flatMap Definition.print
    FreeOfHeaderWords s ∧ stripHeaders s = s := by
  intro s
  have clean : FreeOfHeaderWords s := by decide +kernel
  exact ⟨clean, (stripHeaders_of_free clean).mpr (by decide +kernel)⟩

/-- An import statement begins inside an identifier: the rule loses its end. -/
theorem stripHeaders_cuts_identifier :
    let d : Definition := ⟨"a".toList, " reimport b ".toList, false⟩
    d.WellFormed ∧ FreeOfHeaderWords d.print ∧ d.print = "a : reimport b ;\n".toList ∧
      stripHeaders d.print = "a : re\n".toList := by
  intro d
  have hformed : d.WellFormed :=
    ⟨⟨by decide, List.all_eq_true.mp (by decide)⟩, by decide, by decide +kernel⟩
  exact ⟨hformed, by decide +kernel⟩

end GrammarAudit.Grammar
