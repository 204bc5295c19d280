import GrammarAudit.Grammar.Discovery
import GrammarAudit.Proofs.Grammar.Comment
import GrammarAudit.Proofs.Grammar.Header
import GrammarAudit.Proofs.Grammar.Identifier
import GrammarAudit.Proofs.Grammar.Occurrence

/-!
# The characters of rules

Stripping only drops characters, and a definition is taken from what is left. So the text of a rule
has no characters but those of the source and those it is written out with; names are made of
identifier characters alone.

- `mem_of_mem_strip`: the characters of a stripped text.
- `Definition.mem_of_mem_ruleText`: the characters of the text of a rule.
- `isIdentChar_of_mem_names`: the characters of the names that a text mentions.
-/

namespace GrammarAudit.Grammar

open Text

/-! ## Stripping -/

/-- **Stripping adds no characters.** -/
theorem mem_of_mem_strip {c : Char} {s : List Char} (h : c ∈ strip s) : c ∈ s :=
  mem_of_mem_dropLineComments (mem_of_mem_dropBlockComments
    ((stripHeaders_sublist (stripComments s)).subset h))

/-! ## Definitions -/

section Definitions

variable {c : Char} {t : List Char} {d : Definition}

theorem mem_of_mem_body (hd : d ∈ scanDefinitions t) (h : c ∈ d.body) : c ∈ t := by
  obtain ⟨found, hfound⟩ : ∃ found, Located [] t (scanDefinitions t) found := exists_located rfl
  rw [← hfound.definitions_eq] at hd
  obtain ⟨o, ho, rfl⟩ := List.mem_map.mp hd
  obtain ⟨head, -, htext⟩ := (hfound.stand o ho).2.text
  have hpart : c ∈ ([] ++ t).extract o.start o.stop := by
    rw [htext]
    exact List.mem_append_left _ (List.mem_append_right _ h)
  exact List.mem_of_mem_drop (List.mem_of_mem_take hpart)

theorem isIdentChar_of_mem_name (hd : d ∈ scanDefinitions t) (h : c ∈ d.name) :
    isIdentChar c = true :=
  (wellFormed_of_mem_scanFrom hd).isName.2 c h

/-- **The text of a rule** has the characters of its body and those it is written out with. -/
theorem Definition.mem_of_mem_ruleText {kind : Kind} (hd : d ∈ scanDefinitions t)
    (h : c ∈ d.ruleText kind) : c ∈ t ∨ isIdentChar c = true ∨ c ∈ [' ', ':', ';'] := by
  simp only [ruleText, List.mem_append] at h
  rcases h with (((h | h) | h) | h) | h
  · split at h
    · rcases List.mem_append.mp h with h | h
      · exact .inr (.inl (isName_fragmentWord.2 c h))
      · exact .inr (.inr (List.mem_cons.mpr (.inl (List.mem_singleton.mp h))))
    · cases h
  · exact .inr (.inl (isIdentChar_of_mem_name hd h))
  · exact .inr (.inr (List.mem_append_left [';'] h))
  · exact .inl (mem_of_mem_body hd h)
  · exact .inr (.inr (List.mem_append_right [' ', ':'] h))

end Definitions

/-! ## Names -/

theorem isIdentChar_of_mem_names {s : List Char} {name : String} (h : name ∈ names s) :
    ∀ c ∈ name.toList, isIdentChar c = true := by
  obtain ⟨word, -, hword⟩ := List.mem_filterMap.mp (List.mem_filter.mp (mem_distinct.mp h)).1
  intro c hc
  unfold leadingIdentifier? at hword
  split at hword
  · split at hword
    · cases hword
      rw [String.toList_ofList] at hc
      exact List.all_eq_true.mp List.all_takeWhile c hc
    · cases hword
  · cases hword

theorem isIdentChar_of_mem_references {ruleText : List Char} {name : String}
    (h : name ∈ references ruleText) : ∀ c ∈ name.toList, isIdentChar c = true := by
  unfold references at h
  split at h
  · cases h
  · exact isIdentChar_of_mem_names h

theorem isIdentChar_of_mem_symbolReferences {ruleText : List Char} {name : String}
    (h : name ∈ symbolReferences ruleText) : ∀ c ∈ name.toList, isIdentChar c = true := by
  unfold symbolReferences at h
  split at h
  · cases h
  · exact isIdentChar_of_mem_names h

/-! ## Alternatives -/

section Alternatives

variable {c : Char} {s piece : List Char}

theorem mem_of_mem_consFirst {d : Char} {rest : List Char} {pieces : List (List Char)}
    (hpieces : ∀ piece ∈ pieces, c ∈ piece → c ∈ rest) (h : piece ∈ consFirst d pieces)
    (hc : c ∈ piece) : c ∈ d :: rest := by
  cases pieces with
  | nil =>
    rw [List.mem_singleton.mp h] at hc
    exact List.mem_cons.mpr (.inl (List.mem_singleton.mp hc))
  | cons first others =>
    rcases List.mem_cons.mp h with rfl | h
    · exact List.mem_cons.mpr ((List.mem_cons.mp hc).imp_right (hpieces _ List.mem_cons_self))
    · exact List.mem_cons_of_mem _ (hpieces piece (List.mem_cons_of_mem _ h) hc)

theorem mem_of_mem_splitBars {opened : Option Char} {afterBackslash : Bool} {depth : Int}
    (h : piece ∈ splitBars opened afterBackslash depth s) (hc : c ∈ piece) : c ∈ s := by
  fun_induction splitBars opened afterBackslash depth s generalizing piece with
  | case1 =>
    rw [List.mem_singleton.mp h] at hc
    cases hc
  | case2 =>
    rename_i ih
    rcases List.mem_cons.mp h with rfl | h
    · cases hc
    · exact List.mem_cons_of_mem _ (ih h hc)
  | case3 =>
    rename_i ih
    exact mem_of_mem_consFirst (fun _ hpiece => ih hpiece) h hc
  | case4 =>
    rename_i ih
    exact mem_of_mem_consFirst (fun _ hpiece => ih hpiece) h hc

theorem mem_of_mem_trim (h : c ∈ trim s) : c ∈ s := by
  have hend : c ∈ trimStart s := by
    refine List.mem_reverse.mp ((List.dropWhile_suffix isBlank).subset (List.mem_reverse.mp ?_))
    exact h
  exact (trimStart_suffix s).subset hend

theorem mem_of_mem_withoutTerminator (h : c ∈ withoutTerminator s) : c ∈ s := by
  unfold withoutTerminator at h
  split at h
  · exact (List.dropLast_sublist s).subset h
  · exact h

theorem exists_of_mem_trimPieces {pieces : List (List Char)} (h : piece ∈ trimPieces pieces)
    (hc : c ∈ piece) : ∃ whole ∈ pieces, c ∈ whole := by
  fun_induction trimPieces pieces with
  | case1 => cases h
  | case2 => cases h
  | case3 last =>
    rw [List.mem_singleton.mp h] at hc
    exact ⟨last, List.mem_singleton_self _, mem_of_mem_trim (mem_of_mem_withoutTerminator hc)⟩
  | case4 first rest _ ih =>
    rcases List.mem_cons.mp h with rfl | h
    · exact ⟨first, List.mem_cons_self, mem_of_mem_trim hc⟩
    · obtain ⟨whole, hwhole, hc⟩ := ih h
      exact ⟨whole, List.mem_cons_of_mem _ hwhole, hc⟩

/-- **Alternatives** have the characters of the rule. -/
theorem mem_of_mem_splitAlternatives (h : piece ∈ splitAlternatives s) (hc : c ∈ piece) :
    c ∈ s := by
  unfold splitAlternatives at h
  split at h
  · rwa [List.mem_singleton.mp h] at hc
  · next body hbody =>
    obtain ⟨whole, hwhole, hc⟩ := exists_of_mem_trimPieces h hc
    exact (afterFirst?_suffix hbody).subset (mem_of_mem_splitBars hwhole hc)

/-- The first token of an alternative is part of it. -/
theorem mem_of_mem_firstToken (h : c ∈ firstToken s) : c ∈ s := by
  refine (trimStart_suffix s).subset ?_
  unfold firstToken at h
  split at h
  · cases h
  · next d rest hrest =>
    rw [hrest]
    split at h
    · split at h
      · rcases List.mem_append.mp h with h | h
        · exact List.mem_cons.mpr ((List.mem_cons.mp h).imp_right (List.takeWhile_subset _ ·))
        · exact List.mem_cons.mpr (.inl (List.mem_singleton.mp h))
      · cases h
    · split at h
      · exact List.mem_cons.mpr ((List.mem_cons.mp h).imp_right (List.takeWhile_subset _ ·))
      · cases h

end Alternatives

end GrammarAudit.Grammar
