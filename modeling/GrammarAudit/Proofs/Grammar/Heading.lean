import GrammarAudit.Proofs.Grammar.CharClass
import GrammarAudit.Proofs.Grammar.Terminator

/-!
# Headings of definitions

What a definition looks like up to its colon, as a relation on texts beside the functions that
read it. The relation says nothing about what comes after the colon, and neither does the answer
of the reader.

- `IsName`, `AllBlank`: the parts of a heading.
- `Heading`: a heading with its name and whether it is a fragment's.
- `readHeader?_eq_some_iff`: reading a header finds exactly the headings.
- `readDefinition?_eq_some_iff`: reading a definition finds exactly a heading, a closed body and a
  semicolon.
-/

namespace GrammarAudit.Grammar

open Text

/-- A name of a rule: identifier characters, a letter first. -/
def IsName (name : List Char) : Prop :=
  (name.head?.map Char.isAlpha).getD false = true ∧ ∀ c ∈ name, isIdentChar c = true

/-- A text of blanks only. -/
def AllBlank (gap : List Char) : Prop :=
  ∀ c ∈ gap, isBlank c = true

/-- The text of a definition up to its colon, with the name and whether it is a fragment's. -/
inductive Heading : Bool → List Char → List Char → Prop where
  | rule {name gap : List Char} :
    IsName name → AllBlank gap → Heading false name (name ++ gap ++ [':'])
  | fragment {space name gap : List Char} :
    space ≠ [] → AllBlank space → IsName name → AllBlank gap →
      Heading true name (fragmentWord ++ space ++ name ++ gap ++ [':'])

/-! ## Runs of blanks and identifier characters -/

theorem IsName.exists_cons {name : List Char} (h : IsName name) :
    ∃ c rest, name = c :: rest ∧ c.isAlpha = true := by
  cases name with
  | nil => exact absurd h.1 (by decide)
  | cons c rest => exact ⟨c, rest, rfl, by simpa using h.1⟩

theorem allBlank_takeWhile (s : List Char) : AllBlank (s.takeWhile isBlank) := by
  intro c hc
  have := List.all_takeWhile (p := isBlank) (l := s)
  exact List.all_eq_true.mp this c hc

/-- Blanks before a colon are trimmed up to it. -/
theorem trimStart_gap_colon {gap : List Char} (h : AllBlank gap) (rest : List Char) :
    trimStart (gap ++ ':' :: rest) = ':' :: rest := by
  unfold trimStart
  rw [List.dropWhile_append_of_pos h, List.dropWhile_cons_of_neg (by decide)]

/-- Blanks before a name are trimmed up to it. -/
theorem trimStart_space_name {space name : List Char} (h : AllBlank space) (hn : IsName name)
    (rest : List Char) : trimStart (space ++ (name ++ rest)) = name ++ rest := by
  obtain ⟨c, cs, rfl, hc⟩ := hn.exists_cons
  unfold trimStart
  rw [List.dropWhile_append_of_pos h, List.cons_append, List.dropWhile_cons_of_neg]
  simp [not_isBlank_of_isIdentChar (isIdentChar_of_isAlpha hc)]

/-- What follows a name in a heading is no identifier character. -/
theorem head_gap_colon {gap : List Char} (h : AllBlank gap) (rest : List Char) :
    ∃ c cs, gap ++ ':' :: rest = c :: cs ∧ isIdentChar c = false := by
  cases gap with
  | nil => exact ⟨':', rest, rfl, by decide⟩
  | cons c cs =>
    exact ⟨c, cs ++ ':' :: rest, rfl, not_isIdentChar_of_isBlank (h c (List.mem_cons_self ..))⟩

/-- A name is the whole run of identifier characters at its place. -/
theorem span_name {name gap : List Char} (hn : IsName name) (hg : AllBlank gap)
    (rest : List Char) :
    (name ++ (gap ++ ':' :: rest)).takeWhile isIdentChar = name ∧
      (name ++ (gap ++ ':' :: rest)).dropWhile isIdentChar = gap ++ ':' :: rest := by
  obtain ⟨c, cs, heq, hc⟩ := head_gap_colon hg rest
  rw [heq]
  constructor
  · rw [List.takeWhile_append_of_pos hn.2, List.takeWhile_cons_of_neg (by simp [hc])]
    simp
  · rw [List.dropWhile_append_of_pos hn.2, List.dropWhile_cons_of_neg (by simp [hc])]

/-! ## Reading names -/

/-- Reading a name finds exactly a name, blanks and a colon. -/
theorem readName?_eq_some_iff {s name rest : List Char} :
    readName? s = some (name, rest) ↔
      IsName name ∧ ∃ gap, AllBlank gap ∧ s = name ++ (gap ++ ':' :: rest) := by
  constructor
  · intro h
    cases s with
    | nil => cases h
    | cons c s =>
      simp only [readName?] at h
      split at h
      · next hc =>
        split at h
        · next heq =>
          cases h
          have hident := isIdentChar_of_isAlpha hc
          refine ⟨⟨?_, ?_⟩, ((c :: s).dropWhile isIdentChar).takeWhile isBlank,
            allBlank_takeWhile _, ?_⟩
          · rw [List.takeWhile_cons_of_pos hident]
            simpa using hc
          · exact List.all_eq_true.mp List.all_takeWhile
          · rw [← heq, trimStart, List.takeWhile_append_dropWhile,
              List.takeWhile_append_dropWhile]
        · cases h
      · cases h
  · rintro ⟨hn, gap, hg, rfl⟩
    obtain ⟨htake, hdrop⟩ := span_name hn hg rest
    obtain ⟨c, cs, rfl, hc⟩ := hn.exists_cons
    rw [List.cons_append] at htake hdrop ⊢
    simp only [readName?]
    rw [if_pos hc, hdrop, trimStart_gap_colon hg, htake]
    rfl

/-! ## Reading headers -/

theorem isName_fragmentWord : IsName fragmentWord :=
  ⟨by decide, List.all_eq_true.mp (by decide)⟩

theorem fragmentWord_isPrefixOf (s : List Char) :
    fragmentWord.isPrefixOf (fragmentWord ++ s) = true :=
  List.isPrefixOf_iff_prefix.mpr (List.prefix_append ..)

/-- Reading the start of a fragment finds exactly the word, blanks and what a name reads. -/
theorem readFragmentName?_eq_some_iff {s name rest : List Char} :
    readFragmentName? s = some (name, rest) ↔
      ∃ space gap, space ≠ [] ∧ AllBlank space ∧ IsName name ∧ AllBlank gap ∧
        s = fragmentWord ++ (space ++ (name ++ (gap ++ ':' :: rest))) := by
  constructor
  · intro h
    unfold readFragmentName? at h
    split at h
    · next hc =>
      rw [Bool.and_eq_true] at hc
      obtain ⟨isName_fragmentWord, hblank⟩ := hc
      obtain ⟨u, rfl⟩ := List.isPrefixOf_iff_prefix.mp isName_fragmentWord
      rw [List.drop_left] at h hblank
      obtain ⟨hn, gap, hg, heq⟩ := readName?_eq_some_iff.mp h
      refine ⟨u.takeWhile isBlank, gap, ?_, allBlank_takeWhile u, hn, hg, ?_⟩
      · cases u with
        | nil => cases hblank
        | cons c u =>
          rw [List.takeWhile_cons_of_pos (by simpa using hblank)]
          exact List.cons_ne_nil _ _
      · rw [← heq, trimStart, List.takeWhile_append_dropWhile]
    · cases h
  · rintro ⟨space, gap, hne, hs, hn, hg, rfl⟩
    unfold readFragmentName?
    rw [fragmentWord_isPrefixOf, List.drop_left, trimStart_space_name hs hn]
    cases space with
    | nil => exact absurd rfl hne
    | cons c space =>
      have hc : isBlank c = true := hs c (List.mem_cons_self ..)
      simp only [List.cons_append, List.head?_cons, Option.map_some, hc, Option.getD_some,
        Bool.and_self, if_true]
      exact readName?_eq_some_iff.mpr ⟨hn, gap, hg, rfl⟩

/-- A name before a colon is not taken for the word in front of a fragment. -/
theorem readFragmentName?_of_name {name gap : List Char} (hn : IsName name) (hg : AllBlank gap)
    (rest : List Char) : readFragmentName? (name ++ (gap ++ ':' :: rest)) = none := by
  rw [Option.eq_none_iff_forall_ne_some]
  rintro ⟨name', rest'⟩ h
  obtain ⟨space, gap', hne, hs, hn', -, heq⟩ := readFragmentName?_eq_some_iff.mp h
  -- both sides start with one run of identifier characters, so the name is the word itself
  obtain ⟨c, space, rfl⟩ := List.exists_cons_of_ne_nil hne
  have hc := not_isIdentChar_of_isBlank (hs c (List.mem_cons_self ..))
  have hdrop := (span_name hn hg rest).2
  rw [heq, List.dropWhile_append_of_pos isName_fragmentWord.2, List.cons_append,
    List.dropWhile_cons_of_neg (by simp [hc])] at hdrop
  have htrim := congrArg trimStart hdrop
  rw [← List.cons_append, trimStart_space_name hs hn', trimStart_gap_colon hg] at htrim
  obtain ⟨d, cs, rfl, hd⟩ := hn'.exists_cons
  cases htrim
  exact absurd hd (by decide)

/-- **Reading a header finds exactly the headings**, whatever comes after the colon. -/
theorem readHeader?_eq_some_iff {s name rest : List Char} {isFragment : Bool} :
    readHeader? s = some (isFragment, name, rest) ↔
      ∃ head, Heading isFragment name head ∧ s = head ++ rest := by
  constructor
  · intro h
    unfold readHeader? at h
    split at h
    · next heq =>
      cases h
      obtain ⟨space, gap, hne, hs, hn, hg, rfl⟩ := readFragmentName?_eq_some_iff.mp heq
      exact ⟨_, .fragment hne hs hn hg, by simp⟩
    · obtain ⟨⟨name', rest'⟩, heq, hpair⟩ := Option.map_eq_some_iff.mp h
      cases hpair
      obtain ⟨hn, gap, hg, rfl⟩ := readName?_eq_some_iff.mp heq
      exact ⟨_, .rule hn hg, by simp⟩
  · rintro ⟨head, hhead, rfl⟩
    unfold readHeader?
    cases hhead with
    | rule hn hg =>
      simp only [List.append_assoc, List.cons_append, List.nil_append]
      rw [readFragmentName?_of_name hn hg, readName?_eq_some_iff.mpr ⟨hn, _, hg, rfl⟩]
      rfl
    | fragment hne hs hn hg =>
      simp only [List.append_assoc, List.cons_append, List.nil_append]
      rw [readFragmentName?_eq_some_iff.mpr ⟨_, _, hne, hs, hn, hg, rfl⟩]

/-! ## Reading definitions -/

/-- A heading holds plain characters only. -/
theorem Heading.plain {isFragment : Bool} {name head : List Char}
    (h : Heading isFragment name head) : ∀ c ∈ head, IsPlain c := by
  intro c hc
  cases h with
  | rule hn hg =>
    simp only [List.mem_append, List.mem_singleton] at hc
    rcases hc with (hc | hc) | rfl
    · exact isPlain_of_isIdentChar (hn.2 c hc)
    · exact isPlain_of_isBlank (hg c hc)
    · exact isPlain_colon
  | fragment hne hs hn hg =>
    simp only [List.mem_append, List.mem_singleton] at hc
    rcases hc with (((hc | hc) | hc) | hc) | rfl
    · exact isPlain_of_isIdentChar (isName_fragmentWord.2 c hc)
    · exact isPlain_of_isBlank (hs c hc)
    · exact isPlain_of_isIdentChar (hn.2 c hc)
    · exact isPlain_of_isBlank (hg c hc)
    · exact isPlain_colon

theorem Heading.closed {isFragment : Bool} {name head : List Char}
    (h : Heading isFragment name head) : Closed head :=
  closed_of_plain h.plain

/-- **Reading a definition finds exactly** a heading, a closed body and a semicolon, with a capital
letter first in the name of a fragment. -/
theorem readDefinition?_eq_some_iff {s tail : List Char} {d : Definition} :
    readDefinition? s = some (d, tail) ↔
      ∃ head, Heading d.isFragment d.name head ∧
        (d.isFragment = true → startsUpper d.name = true) ∧ Closed d.body ∧
          s = head ++ (d.body ++ ';' :: tail) := by
  constructor
  · intro h
    unfold readDefinition? at h
    simp only [Option.bind_eq_bind, Option.bind_eq_some_iff, Prod.exists] at h
    obtain ⟨isFragment, name, rest, hhead, h⟩ := h
    split at h
    · cases h
    · next hcapital =>
      simp only [Option.bind_eq_some_iff, Prod.exists] at h
      obtain ⟨body, tail', hsplit, h⟩ := h
      cases h
      obtain ⟨head, hheading, rfl⟩ := readHeader?_eq_some_iff.mp hhead
      obtain ⟨hclosed, rfl⟩ := splitTerminator_code_iff.mp hsplit
      exact ⟨head, hheading, by simpa using hcapital, hclosed, rfl⟩
  · rintro ⟨head, hheading, hcapital, hclosed, rfl⟩
    unfold readDefinition?
    rw [readHeader?_eq_some_iff.mpr ⟨head, hheading, rfl⟩]
    have hcond : ¬ (d.isFragment && !startsUpper d.name) = true := by
      intro h
      rw [Bool.and_eq_true] at h
      rw [hcapital h.1] at h
      cases h.2
    simp only [Option.bind_eq_bind, Option.bind_some, if_neg hcond]
    rw [splitTerminator_code_iff.mpr ⟨hclosed, rfl⟩]
    rfl

end GrammarAudit.Grammar
