import GrammarAudit.Proofs.Grammar.Enclosure
import GrammarAudit.Proofs.Grammar.Residue
import GrammarAudit.Proofs.Grammar.WordPass

/-!
# Bodies that both readings cut alike

`symbolReferences` walks a body unit by unit and puts a blank where a unit was; `references` drops
quoted spans and braces one kind after the other and closes the gaps. On an aligned body the second
reading finds all the names that the first one finds.

- `enclosures`, `residue`: the units of a body and what the loose reading leaves of each.
- `Aligned`: quotes pair up and braces balance in every unit, and no gap joins two words.
- `mem_references_iff`: on an aligned body the loose reading is the reading of the residues.
- `mem_references_of_mem_symbolReferences`: it finds every symbol reference.
-/

namespace GrammarAudit.Grammar

open Text

/-! ## Aligned bodies -/

/-- The units of a body and the characters between them. -/
def enclosures (body : List Char) : List Stretch :=
  stretches enclosure? true body

/-- What the loose reading leaves of a part of a body. -/
def residue (u : Stretch) : List Char :=
  withoutActions (unquoted u.text)

/-- What the strict reading makes of a part of a body: a blank of a unit. -/
def blanked (u : Stretch) : List Char :=
  if u.matched then [' '] else u.text

/-- Whether two texts would form one word across the place where they meet. -/
def joins (s t : List Char) : Bool :=
  wordAfter false s && t.head?.any isWordPart

/-- No unit lies between two characters that the loose reading joins to one word. -/
def Apart (us : List Stretch) : Prop :=
  ∀ i, (h : i < us.length) → us[i].matched = true →
    joins ((us.take i).flatMap residue) ((us.drop i).flatMap residue) = false ∧
      joins ((us.take (i + 1)).flatMap residue) ((us.drop (i + 1)).flatMap residue) = false

/-- A body that both readings cut alike. -/
structure Aligned (body : List Char) : Prop where
  /-- The quotes of each unit pair up. -/
  paired : ∀ u ∈ enclosures body, Paired u.text
  /-- Outside of its quoted spans, each part closes as many braces as it opens. -/
  balanced : ∀ u ∈ enclosures body, (unquoted u.text).count '{' = (unquoted u.text).count '}'
  /-- No comment mark stands outside the quoted spans. -/
  unmarked : ∀ i < (unquoted body).length, opensComment ((unquoted body).drop i) = false
  apart : Apart (enclosures body)

instance (us : List Stretch) : Decidable (Apart us) :=
  inferInstanceAs (Decidable (∀ i, (h : i < us.length) → us[i].matched = true →
    joins ((us.take i).flatMap residue) ((us.drop i).flatMap residue) = false ∧
      joins ((us.take (i + 1)).flatMap residue) ((us.drop (i + 1)).flatMap residue) = false))

instance (body : List Char) : Decidable (Aligned body) :=
  decidable_of_iff ((∀ u ∈ enclosures body, Paired u.text) ∧
      (∀ u ∈ enclosures body, (unquoted u.text).count '{' = (unquoted u.text).count '}') ∧
      (∀ i < (unquoted body).length, opensComment ((unquoted body).drop i) = false) ∧
      Apart (enclosures body))
    ⟨fun ⟨paired, balanced, unmarked, apart⟩ => ⟨paired, balanced, unmarked, apart⟩,
      fun h => ⟨h.paired, h.balanced, h.unmarked, h.apart⟩⟩

/-- Around a unit nothing is joined. -/
theorem Apart.split {us pre post : List Stretch} {u : Stretch} (h : Apart us)
    (hus : us = pre ++ u :: post) (hu : u.matched = true) :
    joins (pre.flatMap residue) ((u :: post).flatMap residue) = false ∧
      joins ((pre ++ [u]).flatMap residue) (post.flatMap residue) = false := by
  subst hus
  have hi : pre.length < (pre ++ u :: post).length := by simp
  have hget : (pre ++ u :: post)[pre.length] = u := by simp
  obtain ⟨hbefore, hafter⟩ := h pre.length hi (by rw [hget]; exact hu)
  refine ⟨?_, ?_⟩
  · rw [List.take_left, List.drop_left] at hbefore
    exact hbefore
  · have hlen : pre.length + 1 = (pre ++ [u]).length := by simp
    rw [List.append_cons pre u post, hlen, List.take_left, List.drop_left] at hafter
    exact hafter

/-! ## The units of a body -/

/-- The loose reading leaves a character between the units as it is. -/
theorem residue_of_code {body : List Char} (h : Aligned body) {u : Stretch}
    (hu : u ∈ enclosures body) (hcode : u.matched = false) :
    ∃ c, residue u = [c] ∧ blanked u = [c] := by
  obtain ⟨lineStart, c, htext, hnone⟩ := text_of_mem_stretches enclosure?_consuming hu hcode
  obtain ⟨hquote, hopen⟩ := of_enclosure?_eq_none hnone
  have hunquoted : unquoted u.text = [c] := by rw [htext, unquoted_cons hquote, unquoted_nil]
  have hclose : c ≠ '}' := by
    rintro rfl
    have hbalanced := h.balanced u hu
    rw [hunquoted] at hbalanced
    revert hbalanced
    decide
  refine ⟨c, ?_, ?_⟩
  · rw [residue, hunquoted, withoutActions, outsideBlocks, if_neg hopen, if_neg hclose, if_pos rfl,
      outsideBlocks]
  · rw [blanked, hcode, htext]
    rfl

/-! ## The loose reading, unit by unit -/

theorem unquoted_flatMap {us : List Stretch} (h : ∀ u ∈ us, Paired u.text) :
    unquoted (us.flatMap Stretch.text) = us.flatMap fun u => unquoted u.text := by
  induction us with
  | nil => exact unquoted_nil
  | cons u us ih =>
    rw [List.flatMap_cons, unquoted_append (h u List.mem_cons_self), List.flatMap_cons,
      ih fun v hv => h v (List.mem_cons_of_mem _ hv)]

theorem withoutActions_flatMap {us : List Stretch}
    (h : ∀ u ∈ us, (unquoted u.text).count '{' = (unquoted u.text).count '}') :
    withoutActions (us.flatMap fun u => unquoted u.text) = us.flatMap residue := by
  induction us with
  | nil => rfl
  | cons u us ih =>
    rw [List.flatMap_cons, withoutActions_append (h u List.mem_cons_self), List.flatMap_cons,
      ih fun v hv => h v (List.mem_cons_of_mem _ hv)]
    rfl

/-- On an aligned body the loose reading reads the residues of the units. -/
theorem mem_references_iff {ruleText body : List Char} {name : String}
    (hbody : body? ruleText = some body) (h : Aligned body) :
    name ∈ references ruleText ↔
      name ∈ identifiersFrom false ((enclosures body).flatMap residue) ∧
        isKeyword name = false := by
  have htext : unquoted body = (enclosures body).flatMap fun u => unquoted u.text := by
    rw [← unquoted_flatMap h.paired, enclosures, flatMap_text_stretches enclosure?_consuming]
  have hcomments := withoutComments_eq_self h.unmarked
  rw [unquoted] at hcomments
  rw [references, hbody]
  simp only
  rw [mem_names, hcomments, ← unquoted, htext, withoutActions_flatMap h.balanced]

/-! ## The strict reading finds nothing more -/

section Readings

variable {us : List Stretch} (happart : Apart us)
  (hcode : ∀ u ∈ us, u.matched = false → ∃ c, residue u = [c] ∧ blanked u = [c])

include happart hcode

/-- After a word character both readings go on with the same identifier characters. -/
theorem takeWhile_blanked {pre post : List Stretch} (hus : us = pre ++ post)
    (hword : wordAfter false (pre.flatMap residue) = true) :
    (post.flatMap blanked).takeWhile isIdentChar =
      (post.flatMap residue).takeWhile isIdentChar := by
  induction post generalizing pre with
  | nil => rfl
  | cons u post ih =>
    cases hu : u.matched with
    | false =>
      obtain ⟨c, hres, hbl⟩ := hcode u (by rw [hus]; simp) hu
      rw [List.flatMap_cons, List.flatMap_cons, hres, hbl, List.singleton_append,
        List.singleton_append]
      by_cases hc : isIdentChar c = true
      · have hnext : wordAfter false ((pre ++ [u]).flatMap residue) = true := by
          rw [List.flatMap_append, List.flatMap_singleton, hres, wordAfter_concat]
          exact isWordPart_of_isIdentChar hc
        rw [List.takeWhile_cons_of_pos hc, List.takeWhile_cons_of_pos hc,
          ih (by rw [hus, List.append_assoc]; rfl) hnext]
      · rw [List.takeWhile_cons_of_neg hc, List.takeWhile_cons_of_neg hc]
    | true =>
      have hjoin := (happart.split hus hu).1
      rw [joins, hword, Bool.true_and] at hjoin
      have hblank : ((u :: post).flatMap blanked).takeWhile isIdentChar = [] := by
        rw [List.flatMap_cons, blanked, hu]
        exact List.takeWhile_cons_of_neg (by decide)
      rw [hblank]
      rcases hrest : (u :: post).flatMap residue with - | ⟨c, rest⟩
      · rfl
      · rw [hrest, List.head?_cons, Option.any_some] at hjoin
        refine (List.takeWhile_cons_of_neg fun hc => ?_).symm
        rw [isWordPart_of_isIdentChar hc] at hjoin
        cases hjoin

/-- A word that starts for the strict reading starts for the loose one. -/
theorem wordAfter_residue {pre post : List Stretch} {u : Stretch} {c : Char}
    (hus : us = pre ++ u :: post) (hres : residue u = [c]) (hc : isWordPart c = true)
    (hword : wordAfter false (pre.flatMap blanked) = false) :
    wordAfter false (pre.flatMap residue) = false := by
  rcases List.eq_nil_or_concat pre with rfl | ⟨pre, v, rfl⟩
  · rfl
  · -- the part before is a character, alike for both, or a unit, which joins nothing
    rw [List.concat_eq_append] at hus hword ⊢
    rw [List.append_assoc, List.singleton_append] at hus
    cases hv : v.matched with
    | false =>
      obtain ⟨d, hresv, hblv⟩ := hcode v (by rw [hus]; simp) hv
      rw [List.flatMap_append, List.flatMap_singleton, hblv, wordAfter_concat] at hword
      rw [List.flatMap_append, List.flatMap_singleton, hresv, wordAfter_concat]
      exact hword
    | true =>
      have hjoin := (happart.split hus hv).2
      rw [joins, List.flatMap_cons, hres, List.singleton_append, List.head?_cons,
        Option.any_some, hc, Bool.and_true] at hjoin
      exact hjoin

/-- What the strict reading finds from some place on the loose one finds as well. -/
theorem mem_residue_of_mem_blanked {pre post : List Stretch} (hus : us = pre ++ post)
    {name : String}
    (h : name ∈ identifiersFrom (wordAfter false (pre.flatMap blanked)) (post.flatMap blanked)) :
    name ∈ identifiersFrom (wordAfter false (pre.flatMap residue)) (post.flatMap residue) := by
  induction post generalizing pre with
  | nil => exact h
  | cons u post ih =>
    have hus' : us = (pre ++ [u]) ++ post := by rw [hus, List.append_assoc]; rfl
    have hnext := ih hus'
    rw [List.flatMap_append, List.flatMap_singleton, List.flatMap_append,
      List.flatMap_singleton] at hnext
    rw [List.flatMap_cons] at h ⊢
    cases hu : u.matched with
    | false =>
      obtain ⟨c, hres, hbl⟩ := hcode u (by rw [hus]; simp) hu
      rw [hres, hbl, wordAfter_concat, wordAfter_concat] at hnext
      rw [hbl, List.singleton_append] at h
      rw [hres]
      -- an identifier that starts here starts for both readings and runs equally far
      by_cases hstart : isIdentStart c = true ∧ wordAfter false (pre.flatMap blanked) = false
      · have hc := isIdentChar_of_isIdentStart hstart.1
        have hword := wordAfter_residue happart hcode hus hres (isWordPart_of_isIdentChar hc)
          hstart.2
        have hrun := takeWhile_blanked happart hcode hus' (by
          rw [List.flatMap_append, List.flatMap_singleton, hres, wordAfter_concat]
          exact isWordPart_of_isIdentChar hc)
        rw [isWordPart_of_isIdentChar hc] at hnext
        rw [hstart.2, identifiersFrom_false_cons_of_start hstart.1, hrun] at h
        rw [hword, List.singleton_append, identifiersFrom_false_cons_of_start hstart.1]
        rcases List.mem_cons.mp h with rfl | h
        · exact List.mem_cons_self
        · exact List.mem_cons_of_mem _ (hnext h)
      · rw [identifiersFrom_cons_of_not hstart] at h
        exact mem_identifiersFrom_append (hnext h)
    | true =>
      -- the residue of a unit may add names, which is no loss
      have hblank : blanked u = [' '] := by rw [blanked, hu]; rfl
      rw [hblank, wordAfter_concat] at hnext
      rw [hblank, List.singleton_append, identifiersFrom_cons_of_not_start (by decide)] at h
      have hrest := hnext h
      rw [wordAfter_append] at hrest
      exact mem_identifiersFrom_append hrest

end Readings

/-- **The loose reading finds every symbol reference** of an aligned body. -/
theorem mem_references_of_mem_symbolReferences {ruleText body : List Char} {name : String}
    (hbody : body? ruleText = some body) (h : Aligned body)
    (hname : name ∈ symbolReferences ruleText) : name ∈ references ruleText := by
  obtain ⟨hstrict, hkeyword⟩ := mem_blankMatches_of_mem_symbolReferences hbody hname
  rw [blankMatches, replaceMatches_eq_flatMap] at hstrict
  refine (mem_references_iff hbody h).mpr ⟨?_, hkeyword⟩
  have hus : enclosures body = [] ++ enclosures body := rfl
  exact mem_residue_of_mem_blanked h.apart (fun u hu => residue_of_code h hu) hus hstrict

end GrammarAudit.Grammar
