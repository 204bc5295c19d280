import GrammarAudit.Proofs.Json.Fields
import GrammarAudit.Proofs.Json.NumberText
import GrammarAudit.Proofs.Json.QuotedText

/-!
# What is written reads back

The text of a value is read to that value, on one line or with any indentation. The reader skips
the blanks that an indentation adds, an object with distinct names is built up with all its fields,
and the length of a text is enough fuel to read it.

- `Json.Proper`: the values that a text can hold: distinct names, numbers of the format.
- `Json.Starts`: what the text of a value starts with, so that no blank or bracket is mistaken.
- `Json.readValue?_list`, `Json.readItems?_cons` and the others: one step of the reader each.
- `Json.readValue?_writeAt`: the text of a value at any depth and before anything that ends it.
- `Json.read?_write`: the text of a value is read to that value.
-/

namespace GrammarAudit.Json

/-- The values that a text can hold: the names in an object are distinct, and numbers are numbers
of the format. -/
inductive Proper : Json → Prop
  | null : Proper null
  | bool (b : Bool) : Proper (bool b)
  | num {n : Number} (h : n.InFormat) : Proper (num n)
  | str (s : String) : Proper (str s)
  | list {items : List Json} (h : ∀ item ∈ items, Proper item) : Proper (list items)
  | object {fields : List (String × Json)} (hnames : (fields.map Prod.fst).Nodup)
      (h : ∀ field ∈ fields, Proper field.2) : Proper (object fields)

/-! ## Blanks -/

section Blanks

variable {gap s : List Char}

theorem skipGaps_append (hgap : ∀ c ∈ gap, isGap c = true) (s : List Char) :
    skipGaps (gap ++ s) = skipGaps s :=
  List.dropWhile_append_of_pos hgap

theorem skipGaps_cons {c : Char} (hc : isGap c = false) : skipGaps (c :: s) = c :: s := by
  have hne : ¬isGap c = true := by
    rw [hc]
    exact Bool.false_ne_true
  exact List.dropWhile_cons_of_neg hne

theorem isGap_of_mem_lineBreak {indent : Option Nat} {depth : Nat} :
    ∀ c ∈ lineBreak indent depth, isGap c = true := by
  intro c hc
  cases indent with
  | none => cases hc
  | some width =>
    rcases List.mem_cons.mp hc with rfl | hc
    · rfl
    · rw [List.eq_of_mem_replicate hc]
      rfl

/-- A separator is a comma and blanks. -/
theorem separator_eq (indent : Option Nat) (depth : Nat) :
    ∃ gap, separator indent depth = ',' :: gap ∧ ∀ c ∈ gap, isGap c = true := by
  cases indent with
  | none => exact ⟨[' '], rfl, fun c hc => by rw [List.mem_singleton.mp hc]; rfl⟩
  | some width => exact ⟨lineBreak (some width) depth, rfl, isGap_of_mem_lineBreak⟩

/-- Blanks end a number. -/
theorem follows_append (hgap : ∀ c ∈ gap, isGap c = true) (hs : Follows s) :
    Follows (gap ++ s) := by
  cases gap with
  | nil => exact hs
  | cons c gap =>
    intro d hd
    cases hd
    have hc := hgap c (List.mem_cons_self ..)
    unfold isGap at hc
    simp only [Bool.or_eq_true, decide_eq_true_eq] at hc
    rcases hc with ((rfl | rfl) | rfl) | rfl <;> decide

end Blanks

/-- The start of the text of a value: no blank, and no bracket that closes. -/
def Starts (s : List Char) : Prop :=
  ∃ c t, s = c :: t ∧ isGap c = false ∧ c ≠ ']' ∧ c ≠ '}'

theorem Starts.append {s : List Char} (h : Starts s) (t : List Char) : Starts (s ++ t) := by
  obtain ⟨c, u, rfl, hc⟩ := h
  exact ⟨c, u ++ t, rfl, hc⟩

theorem Starts.skipGaps {s : List Char} (h : Starts s) : skipGaps s = s := by
  obtain ⟨c, t, rfl, hc, _⟩ := h
  exact skipGaps_cons hc

/-! ## Steps of the reader -/

theorem StartsAtom.starts {c : Char} (h : StartsAtom c) (t : List Char) : Starts (c :: t) := by
  refine ⟨c, t, rfl, ?_, h.ne (by decide) (by decide), h.ne (by decide) (by decide)⟩
  unfold isGap
  simp [h.ne (d := ' ') (by decide) (by decide), h.ne (d := '\t') (by decide) (by decide),
    h.ne (d := '\n') (by decide) (by decide), h.ne (d := '\r') (by decide) (by decide)]

variable {fuel : Nat} {gap body rest tail : List Char}

/-- A word or a number is read as an atom. -/
theorem readValue?_atom {c : Char} (hc : StartsAtom c) (t : List Char) :
    readValue? (fuel + 1) (c :: t) = readAtom? (c :: t) := by
  rw [readValue?]
  all_goals
    intro _ h
    exact hc.ne (by decide) (by decide) (List.cons.inj h).1

theorem readValue?_quoted (s : String) (rest : List Char) :
    readValue? (fuel + 1) (quoted s ++ rest) = some (str s, rest) := by
  unfold quoted
  rw [List.append_assoc, List.cons_append, List.singleton_append, readValue?, readQuoted?_escaped]
  rfl

/-- A list with entries is read from its first entry on. -/
theorem readValue?_list {items : List Json} (hgap : ∀ c ∈ gap, isGap c = true)
    (hbody : Starts body) (hread : readItems? fuel body = some (items, tail)) :
    readValue? (fuel + 1) ('[' :: (gap ++ body)) = some (list items, tail) := by
  rw [readValue?, skipGaps_append hgap, hbody.skipGaps]
  obtain ⟨c, t, rfl, _, hc, _⟩ := hbody
  split
  · next h => exact absurd (List.cons.inj h).1 hc
  · rw [hread]
    rfl

/-- An object with fields is read from its first field on. -/
theorem readValue?_object {fields : List (String × Json)} (hgap : ∀ c ∈ gap, isGap c = true)
    (hbody : Starts body) (hnames : (fields.map Prod.fst).Nodup)
    (hread : readFields? fuel body = some (fields, tail)) :
    readValue? (fuel + 1) ('\x7b' :: (gap ++ body)) = some (object fields, tail) := by
  rw [readValue?, skipGaps_append hgap, hbody.skipGaps]
  obtain ⟨c, t, rfl, _, _, hc⟩ := hbody
  split
  · next h => exact absurd (List.cons.inj h).1 hc
  · rw [hread, Option.map_some]
    dsimp only
    rw [ofFields_of_nodup hnames]

/-- The last item of a list stands before the closing bracket. -/
theorem readItems?_singleton {item : Json} (hgap : ∀ c ∈ gap, isGap c = true)
    (hread : readValue? fuel body = some (item, gap ++ ']' :: tail)) :
    readItems? (fuel + 1) body = some ([item], tail) := by
  rw [readItems?, hread, Option.bind_eq_bind, Option.bind_some]
  dsimp only
  rw [skipGaps_append hgap, skipGaps_cons (by decide)]
  rfl

/-- Another item of a list stands before a comma. -/
theorem readItems?_cons {item : Json} {items : List Json} (hgap : ∀ c ∈ gap, isGap c = true)
    (hrest : Starts rest) (hread : readValue? fuel body = some (item, ',' :: (gap ++ rest)))
    (hitems : readItems? fuel rest = some (items, tail)) :
    readItems? (fuel + 1) body = some (item :: items, tail) := by
  rw [readItems?, hread, Option.bind_eq_bind, Option.bind_some]
  dsimp only
  rw [skipGaps_cons (by decide)]
  show (readItems? fuel (skipGaps (gap ++ rest))).bind _ = _
  rw [skipGaps_append hgap, hrest.skipGaps, hitems]
  rfl

/-- The name of a field is read first. -/
theorem readFields?_quoted (name : String) (hbody : Starts body) {value : Json}
    (hread : readValue? fuel body = some (value, rest)) :
    readFields? (fuel + 1) (quoted name ++ ':' :: ' ' :: body) =
      match skipGaps rest with
      | '\x7d' :: tail => some ([(name, value)], tail)
      | ',' :: more => (readFields? fuel (skipGaps more)).bind fun (fields, tail) =>
          some ((name, value) :: fields, tail)
      | _ => none := by
  have hspace : skipGaps (' ' :: body) = body := hbody.skipGaps
  unfold quoted
  rw [List.append_assoc, List.cons_append, List.singleton_append, readFields?,
    readQuoted?_escaped, Option.bind_eq_bind, Option.bind_some]
  dsimp only
  rw [skipGaps_cons (by decide)]
  show (readValue? fuel (skipGaps (' ' :: body))).bind _ = _
  rw [hspace, hread]
  rfl

/-- The last field of an object stands before the closing brace. -/
theorem readFields?_singleton (name : String) {value : Json} (hgap : ∀ c ∈ gap, isGap c = true)
    (hbody : Starts body) (hread : readValue? fuel body = some (value, gap ++ '\x7d' :: tail)) :
    readFields? (fuel + 1) (quoted name ++ ':' :: ' ' :: body) =
      some ([(name, value)], tail) := by
  rw [readFields?_quoted name hbody hread, skipGaps_append hgap, skipGaps_cons (by decide)]
  rfl

/-- Another field of an object stands before a comma. -/
theorem readFields?_cons (name : String) {value : Json} {fields : List (String × Json)}
    (hgap : ∀ c ∈ gap, isGap c = true) (hbody : Starts body) (hrest : Starts rest)
    (hread : readValue? fuel body = some (value, ',' :: (gap ++ rest)))
    (hfields : readFields? fuel rest = some (fields, tail)) :
    readFields? (fuel + 1) (quoted name ++ ':' :: ' ' :: body) =
      some ((name, value) :: fields, tail) := by
  rw [readFields?_quoted name hbody hread, skipGaps_cons (by decide)]
  show (readFields? fuel (skipGaps (gap ++ rest))).bind _ = _
  rw [skipGaps_append hgap, hrest.skipGaps, hfields]
  rfl

/-! ## The text of a value -/

/-- The items of a list as they stand between its brackets. -/
def itemsText (indent : Option Nat) (depth : Nat) : List Json → List Char
  | [] => []
  | item :: rest => writeAt indent depth item ++ writeItems indent depth rest

/-- The fields of an object as they stand between its braces. -/
def fieldsText (indent : Option Nat) (depth : Nat) : List (String × Json) → List Char
  | [] => []
  | (k, v) :: rest =>
    quoted k ++ ':' :: ' ' :: (writeAt indent depth v ++ writeFields indent depth rest)

variable {indent : Option Nat} {depth : Nat}

theorem writeAt_list {items : List Json} (hne : items ≠ []) :
    writeAt indent depth (list items) =
      '[' :: (lineBreak indent (depth + 1) ++
        (itemsText indent (depth + 1) items ++ (lineBreak indent depth ++ [']']))) := by
  cases items with
  | nil => exact absurd rfl hne
  | cons item rest =>
    rw [writeAt, itemsText]
    simp only [List.cons_append, List.append_assoc]

theorem writeAt_object {fields : List (String × Json)} (hne : fields ≠ []) :
    writeAt indent depth (object fields) =
      '\x7b' :: (lineBreak indent (depth + 1) ++
        (fieldsText indent (depth + 1) fields ++ (lineBreak indent depth ++ ['\x7d']))) := by
  cases fields with
  | nil => exact absurd rfl hne
  | cons field rest =>
    obtain ⟨k, v⟩ := field
    rw [writeAt, fieldsText]
    simp only [List.cons_append, List.append_assoc]

theorem writeItems_eq {items : List Json} (hne : items ≠ []) :
    writeItems indent depth items = separator indent depth ++ itemsText indent depth items := by
  cases items with
  | nil => exact absurd rfl hne
  | cons item rest => rw [writeItems, itemsText, List.append_assoc]

theorem writeFields_eq {fields : List (String × Json)} (hne : fields ≠ []) :
    writeFields indent depth fields = separator indent depth ++ fieldsText indent depth fields := by
  cases fields with
  | nil => exact absurd rfl hne
  | cons field rest =>
    obtain ⟨k, v⟩ := field
    rw [writeFields, fieldsText]
    simp only [List.cons_append, List.append_assoc]

theorem itemsText_singleton (item : Json) :
    itemsText indent depth [item] = writeAt indent depth item := by
  rw [itemsText, writeItems, List.append_nil]

theorem itemsText_cons_cons (item next : Json) (rest : List Json) :
    itemsText indent depth (item :: next :: rest) =
      writeAt indent depth item ++
        (separator indent depth ++ itemsText indent depth (next :: rest)) := by
  rw [itemsText, writeItems_eq (List.cons_ne_nil _ _)]

theorem fieldsText_singleton (name : String) (value : Json) :
    fieldsText indent depth [(name, value)] =
      quoted name ++ ':' :: ' ' :: writeAt indent depth value := by
  rw [fieldsText, writeFields, List.append_nil]

theorem fieldsText_cons_cons (name : String) (value : Json) (next : String × Json)
    (rest : List (String × Json)) :
    fieldsText indent depth ((name, value) :: next :: rest) =
      quoted name ++ ':' :: ' ' :: (writeAt indent depth value ++
        (separator indent depth ++ fieldsText indent depth (next :: rest))) := by
  rw [fieldsText, writeFields_eq (List.cons_ne_nil _ _)]

theorem starts_writeAt {v : Json} (hv : Proper v) : Starts (writeAt indent depth v) := by
  cases hv with
  | null => exact StartsAtom.starts (.inr (by decide)) _
  | bool b =>
    cases b with
    | false => exact StartsAtom.starts (c := 'f') (.inr (by decide)) _
    | true => exact StartsAtom.starts (c := 't') (.inr (by decide)) _
  | num h =>
    obtain ⟨c, t, htext, hc⟩ := startsAtom_numberText h
    rw [writeAt, htext]
    exact hc.starts t
  | str s =>
    rw [writeAt]
    exact ⟨'"', _, rfl, by decide, by decide, by decide⟩
  | @list items h =>
    cases items with
    | nil => exact ⟨'[', _, rfl, by decide, by decide, by decide⟩
    | cons item rest =>
      rw [writeAt_list (List.cons_ne_nil _ _)]
      exact ⟨'[', _, rfl, by decide, by decide, by decide⟩
  | @object fields hnames h =>
    cases fields with
    | nil => exact ⟨'\x7b', _, rfl, by decide, by decide, by decide⟩
    | cons field rest =>
      rw [writeAt_object (List.cons_ne_nil _ _)]
      exact ⟨'\x7b', _, rfl, by decide, by decide, by decide⟩

theorem starts_itemsText {items : List Json} (hne : items ≠ []) (h : ∀ item ∈ items, Proper item) :
    Starts (itemsText indent depth items) := by
  cases items with
  | nil => exact absurd rfl hne
  | cons item rest => exact (starts_writeAt (h item (List.mem_cons_self ..))).append _

theorem starts_fieldsText {fields : List (String × Json)} (hne : fields ≠ []) :
    Starts (fieldsText indent depth fields) := by
  cases fields with
  | nil => exact absurd rfl hne
  | cons field rest => exact ⟨'"', _, rfl, by decide, by decide, by decide⟩

/-- What follows an entry ends it: a comma, a bracket that closes, or blanks before it. -/
theorem follows_cons {c : Char} (hc : c = ',' ∨ c = ']' ∨ c = '\x7d') (s : List Char) :
    Follows (c :: s) := by
  intro d hd
  cases hd
  rcases hc with rfl | rfl | rfl <;> decide

/-- A word or a number is read from its text before anything that ends it. -/
theorem readValue?_of_atom {v : Json} {s : List Char} (hs : ∃ c t, s = c :: t ∧ StartsAtom c)
    (hread : readAtom? (s ++ rest) = some (v, rest)) (hfuel : s.length ≤ fuel) :
    readValue? fuel (s ++ rest) = some (v, rest) := by
  obtain ⟨c, t, rfl, hc⟩ := hs
  rw [List.length_cons] at hfuel
  obtain ⟨fuel, rfl⟩ : ∃ k, fuel = k + 1 := ⟨fuel - 1, by omega⟩
  rw [List.cons_append] at hread ⊢
  rw [readValue?_atom hc, hread]

mutual

/-- **The text of a value is read to that value**, at any depth and before anything that ends
it. -/
theorem readValue?_writeAt (indent : Option Nat) : ∀ (v : Json), Proper v →
    ∀ (depth fuel : Nat) (rest : List Char), (writeAt indent depth v).length ≤ fuel →
      Follows rest → readValue? fuel (writeAt indent depth v ++ rest) = some (v, rest)
  | null, _ => fun depth fuel rest hfuel _ =>
    readValue?_of_atom ⟨'n', _, rfl, .inr (by decide)⟩ rfl hfuel
  | bool false, _ => fun depth fuel rest hfuel _ =>
    readValue?_of_atom ⟨'f', _, rfl, .inr (by decide)⟩ rfl hfuel
  | bool true, _ => fun depth fuel rest hfuel _ =>
    readValue?_of_atom ⟨'t', _, rfl, .inr (by decide)⟩ rfl hfuel
  | num n, hv => fun depth fuel rest hfuel hrest => by
    cases hv with
    | num h =>
      rw [writeAt] at hfuel ⊢
      exact readValue?_of_atom (startsAtom_numberText h) (readAtom?_numberText h hrest) hfuel
  | str s, _ => fun depth fuel rest hfuel _ => by
    rw [writeAt] at hfuel ⊢
    cases fuel with
    | zero => cases hfuel
    | succ fuel => exact readValue?_quoted s rest
  | list [], _ => fun depth fuel rest hfuel _ => by
    cases fuel with
    | zero => cases hfuel
    | succ fuel => rfl
  | list (item :: items), hv => fun depth fuel rest hfuel _ => by
    cases hv with
    | list h =>
      have hne : item :: items ≠ [] := List.cons_ne_nil _ _
      rw [writeAt_list hne] at hfuel ⊢
      simp only [List.length_cons, List.length_append] at hfuel
      obtain ⟨fuel, rfl⟩ : ∃ k, fuel = k + 1 := ⟨fuel - 1, by omega⟩
      simp only [List.cons_append, List.append_assoc, List.nil_append]
      exact readValue?_list isGap_of_mem_lineBreak ((starts_itemsText hne h).append _)
        (readItems?_itemsText indent (item :: items) hne h (depth + 1) fuel _ rest (by omega)
          isGap_of_mem_lineBreak)
  | object [], _ => fun depth fuel rest hfuel _ => by
    cases fuel with
    | zero => cases hfuel
    | succ fuel => rfl
  | object (field :: fields), hv => fun depth fuel rest hfuel _ => by
    cases hv with
    | object hnames h =>
      have hne : field :: fields ≠ [] := List.cons_ne_nil _ _
      rw [writeAt_object hne] at hfuel ⊢
      simp only [List.length_cons, List.length_append] at hfuel
      obtain ⟨fuel, rfl⟩ : ∃ k, fuel = k + 1 := ⟨fuel - 1, by omega⟩
      simp only [List.cons_append, List.append_assoc, List.nil_append]
      exact readValue?_object isGap_of_mem_lineBreak ((starts_fieldsText hne).append _) hnames
        (readFields?_fieldsText indent (field :: fields) hne h (depth + 1) fuel _ rest (by omega)
          isGap_of_mem_lineBreak)

/-- The items of a list are read up to the bracket that closes it. -/
theorem readItems?_itemsText (indent : Option Nat) : ∀ (items : List Json), items ≠ [] →
    (∀ item ∈ items, Proper item) → ∀ (depth fuel : Nat) (gap tail : List Char),
      (itemsText indent depth items).length + 1 ≤ fuel → (∀ c ∈ gap, isGap c = true) →
        readItems? fuel (itemsText indent depth items ++ (gap ++ ']' :: tail)) = some (items, tail)
  | [], hne, _ => absurd rfl hne
  | [item], _, h => fun depth fuel gap tail hfuel hgap => by
    rw [itemsText_singleton] at hfuel ⊢
    obtain ⟨fuel, rfl⟩ : ∃ k, fuel = k + 1 := ⟨fuel - 1, by omega⟩
    exact readItems?_singleton hgap (readValue?_writeAt indent item (h item (List.mem_cons_self ..))
      depth fuel _ (by omega) (follows_append hgap (follows_cons (.inr (.inl rfl)) _)))
  | item :: next :: rest, _, h => fun depth fuel gap tail hfuel hgap => by
    have hne : next :: rest ≠ [] := List.cons_ne_nil _ _
    have hrest : ∀ i ∈ next :: rest, Proper i := fun i hi => h i (List.mem_cons_of_mem _ hi)
    obtain ⟨space, hseparator, hspace⟩ := separator_eq indent depth
    rw [itemsText_cons_cons, hseparator] at hfuel ⊢
    simp only [List.length_cons, List.length_append] at hfuel
    obtain ⟨fuel, rfl⟩ : ∃ k, fuel = k + 1 := ⟨fuel - 1, by omega⟩
    simp only [List.cons_append, List.append_assoc]
    exact readItems?_cons hspace ((starts_itemsText hne hrest).append _)
      (readValue?_writeAt indent item (h item (List.mem_cons_self ..)) depth fuel _ (by omega)
        (follows_cons (.inl rfl) _))
      (readItems?_itemsText indent (next :: rest) hne hrest depth fuel gap tail (by omega) hgap)

/-- The fields of an object are read up to the brace that closes it. -/
theorem readFields?_fieldsText (indent : Option Nat) : ∀ (fields : List (String × Json)),
    fields ≠ [] → (∀ field ∈ fields, Proper field.2) → ∀ (depth fuel : Nat) (gap tail : List Char),
      (fieldsText indent depth fields).length + 1 ≤ fuel → (∀ c ∈ gap, isGap c = true) →
        readFields? fuel (fieldsText indent depth fields ++ (gap ++ '\x7d' :: tail)) =
          some (fields, tail)
  | [], hne, _ => absurd rfl hne
  | [(name, value)], _, h => fun depth fuel gap tail hfuel hgap => by
    have hvalue : Proper value := h (name, value) (List.mem_cons_self ..)
    rw [fieldsText_singleton] at hfuel ⊢
    simp only [List.length_cons, List.length_append] at hfuel
    obtain ⟨fuel, rfl⟩ : ∃ k, fuel = k + 1 := ⟨fuel - 1, by omega⟩
    simp only [List.cons_append, List.append_assoc]
    exact readFields?_singleton name hgap ((starts_writeAt hvalue).append _)
      (readValue?_writeAt indent value hvalue depth fuel _ (by omega)
        (follows_append hgap (follows_cons (.inr (.inr rfl)) _)))
  | (name, value) :: next :: rest, _, h => fun depth fuel gap tail hfuel hgap => by
    have hvalue : Proper value := h (name, value) (List.mem_cons_self ..)
    have hne : next :: rest ≠ [] := List.cons_ne_nil _ _
    have hrest : ∀ i ∈ next :: rest, Proper i.2 := fun i hi => h i (List.mem_cons_of_mem _ hi)
    obtain ⟨space, hseparator, hspace⟩ := separator_eq indent depth
    rw [fieldsText_cons_cons, hseparator] at hfuel ⊢
    simp only [List.length_cons, List.length_append] at hfuel
    obtain ⟨fuel, rfl⟩ : ∃ k, fuel = k + 1 := ⟨fuel - 1, by omega⟩
    simp only [List.cons_append, List.append_assoc]
    exact readFields?_cons name hspace ((starts_writeAt hvalue).append _)
      ((starts_fieldsText hne).append _)
      (readValue?_writeAt indent value hvalue depth fuel _ (by omega) (follows_cons (.inl rfl) _))
      (readFields?_fieldsText indent (next :: rest) hne hrest depth fuel gap tail (by omega) hgap)

end

/-- **The text of a value is read to that value**, on one line or with any indentation. -/
theorem read?_write (indent : Option Nat) {v : Json} (hv : Proper v) :
    read? (write indent v) = some v := by
  have hread := readValue?_writeAt indent v hv 0 (2 * (writeAt indent 0 v).length + 2) []
    (by omega) follows_nil
  rw [List.append_nil] at hread
  unfold read? write
  rw [String.toList_ofList, (starts_writeAt hv).skipGaps]
  dsimp only
  rw [hread]
  rfl

end GrammarAudit.Json
