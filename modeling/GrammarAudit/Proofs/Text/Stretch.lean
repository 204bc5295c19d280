import GrammarAudit.Text.Replace

/-!
# Stretches of a search

The search for the matches of a pattern cuts a text into stretches, each either one match or one
character that no match covers. Replacing matches is then a map over the stretches.

- `after?_eq_some_iff`, `afterFirst?_suffix`: what follows a word ends the text.
- `exists_of_afterFirst?_eq_some`: what stands before the first occurrence of a word.
- `stretches`: the stretches of a text, in order.
- `replaceMatches_eq_flatMap`: replacing matches, stretch by stretch.
- `flatMap_text_stretches`: put together again the stretches are the text.
-/

namespace GrammarAudit.Text

/-! ## Words in a text -/

theorem after?_append (word s : List Char) : after? word (word ++ s) = some s := by
  rw [after?, if_pos (List.isPrefixOf_iff_prefix.mpr (List.prefix_append word s)), List.drop_left]

theorem after?_eq_some_iff {word s tail : List Char} :
    after? word s = some tail ↔ s = word ++ tail := by
  unfold after?
  constructor
  · intro h
    split at h
    · next hpre =>
      cases h
      obtain ⟨t, rfl⟩ := List.isPrefixOf_iff_prefix.mp hpre
      rw [List.drop_left]
    · cases h
  · rintro rfl
    exact after?_append word tail

/-- What follows a word ends the text. -/
theorem after?_suffix {word s tail : List Char} (h : after? word s = some tail) : tail <:+ s :=
  ⟨word, (after?_eq_some_iff.mp h).symm⟩

theorem afterFirst?_append (word s : List Char) (hword : word ≠ []) :
    afterFirst? word (word ++ s) = some s := by
  obtain ⟨c, w, rfl⟩ := List.exists_cons_of_ne_nil hword
  rw [List.cons_append, afterFirst?, ← List.cons_append, after?_append]
  rfl

/-- Where the word does not stand the search goes on. -/
theorem afterFirst?_cons {word : List Char} {c : Char} {s : List Char}
    (h : ∀ tail, c :: s ≠ word ++ tail) : afterFirst? word (c :: s) = afterFirst? word s := by
  have hnone : after? word (c :: s) = none :=
    Option.eq_none_iff_forall_ne_some.mpr fun tail hs => h tail (after?_eq_some_iff.mp hs)
  rw [afterFirst?, hnone, Option.none_or]

theorem afterFirst?_of_not_mem {mark : Char} {s t : List Char} (h : mark ∉ s) :
    afterFirst? [mark] (s ++ mark :: t) = some t := by
  induction s with
  | nil => exact afterFirst?_append [mark] t (List.cons_ne_nil _ _)
  | cons c s ih =>
    rw [List.cons_append, afterFirst?_cons, ih (List.not_mem_of_not_mem_cons h)]
    intro tail heq
    exact List.ne_of_not_mem_cons h (List.cons.inj heq).1.symm

/-- What follows the first occurrence of a word ends the text. -/
theorem afterFirst?_suffix {word s tail : List Char} (h : afterFirst? word s = some tail) :
    tail <:+ s := by
  induction s with
  | nil => exact after?_suffix h
  | cons c s ih =>
    unfold afterFirst? at h
    rcases Option.or_eq_some_iff.mp h with h | ⟨-, h⟩
    · exact after?_suffix h
    · exact (ih h).trans (List.suffix_cons c s)

/-- What stands before the first occurrence of a word does not hold it. -/
theorem exists_of_afterFirst?_eq_some {word s tail : List Char} (hword : word ≠ [])
    (h : afterFirst? word s = some tail) : ∃ x, s = x ++ (word ++ tail) ∧ ¬word <:+: x := by
  induction s with
  | nil =>
    obtain ⟨rfl, -⟩ := List.append_eq_nil_iff.mp (after?_eq_some_iff.mp h).symm
    exact absurd rfl hword
  | cons c s ih =>
    rw [afterFirst?] at h
    rcases Option.or_eq_some_iff.mp h with hhere | ⟨hnone, hlater⟩
    · have hs := after?_eq_some_iff.mp hhere
      refine ⟨[], hs, ?_⟩
      rwa [List.infix_nil]
    · obtain ⟨x, rfl, hx⟩ := ih hlater
      refine ⟨c :: x, rfl, ?_⟩
      rw [List.infix_cons_iff]
      rintro (⟨z, hz⟩ | hin)
      · have hsome := after?_append word (z ++ (word ++ tail))
        rw [← List.append_assoc, hz, List.cons_append, hnone] at hsome
        cases hsome
      · exact hx hin

/-! ## Stretches -/

/-- One match of a pattern, or one character that no match covers, and what follows it. -/
structure Stretch where
  matched : Bool
  text : List Char
  after : List Char
deriving DecidableEq, Repr

/-- The first stretch of a text that is not empty. -/
def firstStretch (pattern : Pattern) (lineStart : Bool) (c : Char) (rest : List Char) : Stretch :=
  match pattern lineStart (c :: rest) with
  | some tail =>
    if tail.length ≤ rest.length then
      ⟨true, (c :: rest).take (rest.length + 1 - tail.length), tail⟩
    else
      ⟨false, [c], rest⟩
  | none => ⟨false, [c], rest⟩

theorem firstStretch_after_length (pattern : Pattern) (lineStart : Bool) (c : Char)
    (rest : List Char) : (firstStretch pattern lineStart c rest).after.length ≤ rest.length := by
  unfold firstStretch
  split
  · split
    · assumption
    · exact Nat.le_refl _
  · exact Nat.le_refl _

/-- The stretches into which the search for a pattern cuts a text. -/
def stretches (pattern : Pattern) (lineStart : Bool) (s : List Char) : List Stretch :=
  match s with
  | [] => []
  | c :: rest =>
    let u := firstStretch pattern lineStart c rest
    u :: stretches pattern (!u.matched && c = '\n') u.after
termination_by s.length
decreasing_by exact Nat.lt_succ_of_le (firstStretch_after_length pattern lineStart c rest)

/-- Where a stretch of a text begins in it. -/
def Stretch.start (u : Stretch) (s : List Char) : Nat :=
  s.length - (u.text ++ u.after).length

/-- Replacing the matches of a pattern replaces the stretches that are matches. -/
theorem replaceMatches_eq_flatMap (replacement : List Char) (pattern : Pattern) (lineStart : Bool)
    (s : List Char) :
    replaceMatches replacement pattern lineStart s =
      (stretches pattern lineStart s).flatMap fun u =>
        if u.matched then replacement else u.text := by
  fun_induction replaceMatches replacement pattern lineStart s with
  | case1 => simp [stretches]
  | case2 lineStart c rest tail hmatch hle ih =>
    rw [stretches, firstStretch, hmatch]
    simp [if_pos hle, ih]
  | case3 lineStart c rest tail hmatch hle ih =>
    rw [stretches, firstStretch, hmatch]
    simp [if_neg hle, ih]
  | case4 lineStart c rest hmatch ih =>
    rw [stretches, firstStretch, hmatch]
    simp [ih]

theorem replaceMatches_of_none {pattern : Pattern} {lineStart : Bool} {c : Char}
    {rest : List Char} (h : pattern lineStart (c :: rest) = none) (replacement : List Char) :
    replaceMatches replacement pattern lineStart (c :: rest) =
      c :: replaceMatches replacement pattern (c = '\n') rest := by
  rw [replaceMatches, h]

theorem replaceMatches_of_some {pattern : Pattern} {lineStart : Bool} {c : Char}
    {t tail : List Char} (h : pattern lineStart (c :: (t ++ tail)) = some tail)
    (replacement : List Char) :
    replaceMatches replacement pattern lineStart (c :: (t ++ tail)) =
      replacement ++ replaceMatches replacement pattern false tail := by
  rw [replaceMatches, h]
  exact if_pos (List.suffix_append t tail).length_le

/-- A pattern that does not look at line starts replaces the same everywhere. -/
theorem replaceMatches_congr {pattern : Pattern} (hp : ∀ a b s, pattern a s = pattern b s)
    (replacement : List Char) (a b : Bool) (s : List Char) :
    replaceMatches replacement pattern a s = replaceMatches replacement pattern b s := by
  rcases s with - | ⟨c, s⟩
  · rw [replaceMatches, replaceMatches]
  · rw [replaceMatches, replaceMatches, hp a b]

/-- Where the pattern never matches the text stays. -/
theorem replaceMatches_eq_self {pattern : Pattern} {s : List Char}
    (h : ∀ i < s.length, ∀ lineStart, pattern lineStart (s.drop i) = none)
    (replacement : List Char) (lineStart : Bool) :
    replaceMatches replacement pattern lineStart s = s := by
  induction s generalizing lineStart with
  | nil => rw [replaceMatches]
  | cons c s ih =>
    have hc : pattern lineStart (c :: s) = none := h 0 (Nat.zero_lt_succ _) lineStart
    rw [replaceMatches_of_none hc, ih fun i hi => h (i + 1) (Nat.succ_lt_succ hi)]

/-! ## Patterns that consume the first character -/

/-- A match stands at the start of the text and covers at least its first character. -/
def Pattern.Consuming (pattern : Pattern) : Prop :=
  ∀ lineStart c rest tail, pattern lineStart (c :: rest) = some tail → tail <:+ rest

variable {pattern : Pattern}

/-- Where the pattern does not match, the first stretch is the first character. -/
theorem firstStretch_of_none {lineStart : Bool} {c : Char} {rest : List Char}
    (h : pattern lineStart (c :: rest) = none) :
    firstStretch pattern lineStart c rest = ⟨false, [c], rest⟩ := by
  rw [firstStretch, h]

/-- Where the pattern matches, the first stretch is the match. -/
theorem firstStretch_of_some {lineStart : Bool} {c : Char} {t tail : List Char}
    (h : pattern lineStart (c :: (t ++ tail)) = some tail) :
    firstStretch pattern lineStart c (t ++ tail) = ⟨true, c :: t, tail⟩ := by
  have hle : tail.length ≤ (t ++ tail).length := (List.suffix_append t tail).length_le
  have hlen : (t ++ tail).length + 1 - tail.length = (c :: t).length := by
    rw [List.length_append, List.length_cons]
    omega
  rw [firstStretch, h]
  simp only [if_pos hle]
  rw [hlen, ← List.cons_append, List.take_left]

/-- A stretch is the first character, or a match that covers it. -/
theorem firstStretch_cases (hp : pattern.Consuming) (lineStart : Bool) (c : Char)
    (rest : List Char) :
    (pattern lineStart (c :: rest) = none ∧
      firstStretch pattern lineStart c rest = ⟨false, [c], rest⟩) ∨
    ∃ t tail, t ++ tail = rest ∧ pattern lineStart (c :: rest) = some tail ∧
      firstStretch pattern lineStart c rest = ⟨true, c :: t, tail⟩ := by
  cases hmatch : pattern lineStart (c :: rest) with
  | none => exact .inl ⟨rfl, firstStretch_of_none hmatch⟩
  | some tail =>
    obtain ⟨t, rfl⟩ := hp lineStart c rest tail hmatch
    exact .inr ⟨t, tail, rfl, rfl, firstStretch_of_some hmatch⟩

theorem firstStretch_append (hp : pattern.Consuming) (lineStart : Bool) (c : Char)
    (rest : List Char) :
    (firstStretch pattern lineStart c rest).text ++ (firstStretch pattern lineStart c rest).after =
      c :: rest := by
  rcases firstStretch_cases hp lineStart c rest with ⟨-, h⟩ | ⟨t, tail, rfl, -, h⟩
  · rw [h]
    rfl
  · rw [h]
    rfl

theorem text_length_pos_of_mem_stretches (hp : pattern.Consuming) {lineStart : Bool}
    {s : List Char} {u : Stretch} (hu : u ∈ stretches pattern lineStart s) :
    0 < u.text.length := by
  fun_induction stretches pattern lineStart s with
  | case1 => cases hu
  | case2 lineStart c rest first ih =>
    rcases List.mem_cons.mp hu with rfl | hu
    · rcases firstStretch_cases hp lineStart c rest with ⟨-, h⟩ | ⟨t, tail, -, -, h⟩
      · rw [show first = _ from h]
        exact Nat.zero_lt_one
      · rw [show first = _ from h]
        exact Nat.zero_lt_succ _
    · exact ih hu

/-- A stretch that is no match is a character at which the pattern does not match. -/
theorem text_of_mem_stretches (hp : pattern.Consuming) {lineStart : Bool} {s : List Char}
    {u : Stretch} (hu : u ∈ stretches pattern lineStart s) (hcode : u.matched = false) :
    ∃ lineStart c, u.text = [c] ∧ pattern lineStart (c :: u.after) = none := by
  fun_induction stretches pattern lineStart s with
  | case1 => cases hu
  | case2 lineStart c rest first ih =>
    rcases List.mem_cons.mp hu with rfl | hu
    · rcases firstStretch_cases hp lineStart c rest with ⟨hnone, h⟩ | ⟨t, tail, -, -, h⟩
      · rw [show first = _ from h]
        exact ⟨lineStart, c, rfl, hnone⟩
      · rw [show first = _ from h] at hcode
        cases hcode
    · exact ih hu

/-- A stretch and what follows it end the text. -/
theorem suffix_of_mem_stretches (hp : pattern.Consuming) {lineStart : Bool} {s : List Char}
    {u : Stretch} (hu : u ∈ stretches pattern lineStart s) : u.text ++ u.after <:+ s := by
  fun_induction stretches pattern lineStart s with
  | case1 => cases hu
  | case2 lineStart c rest first ih =>
    have happ : first.text ++ first.after = c :: rest := firstStretch_append hp lineStart c rest
    rcases List.mem_cons.mp hu with rfl | hu
    · exact ⟨[], happ⟩
    · rw [← happ]
      exact (ih hu).trans (List.suffix_append _ _)

/-- A stretch stands where it begins. -/
theorem drop_start_of_mem_stretches (hp : pattern.Consuming) {lineStart : Bool} {s : List Char}
    {u : Stretch} (hu : u ∈ stretches pattern lineStart s) :
    s.drop (u.start s) = u.text ++ u.after := by
  obtain ⟨before, hs⟩ := suffix_of_mem_stretches hp hu
  have hstart : u.start s = before.length := by
    rw [Stretch.start, ← hs, List.length_append, Nat.add_sub_cancel]
  rw [hstart, ← hs, List.drop_left]

/-- Where a stretch of the text after the first one begins. -/
theorem start_append (hp : pattern.Consuming) {lineStart : Bool} {s : List Char} {u : Stretch}
    (hu : u ∈ stretches pattern lineStart s) (t : List Char) :
    u.start (t ++ s) = t.length + u.start s := by
  have hle := (suffix_of_mem_stretches hp hu).length_le
  have hlen : (t ++ s).length = t.length + s.length := List.length_append
  rw [Stretch.start, Stretch.start, hlen, Nat.add_sub_assoc hle]

/-- Put together again, the stretches are the text. -/
theorem flatMap_text_stretches (hp : pattern.Consuming) (lineStart : Bool) (s : List Char) :
    (stretches pattern lineStart s).flatMap Stretch.text = s := by
  fun_induction stretches pattern lineStart s with
  | case1 => rfl
  | case2 lineStart c rest first ih =>
    rw [List.flatMap_cons, ih]
    exact firstStretch_append hp lineStart c rest

end GrammarAudit.Text
