import GrammarAudit.Proofs.Yaml.Legible
import GrammarAudit.Proofs.Yaml.Tree

/-!
# What is written reads back

The text of an object in block style is read to that object, up to its texts: those in single quotes
lose the one line break that a document has and the writer does not escape there.

- `Json.mapTexts`: a value with its texts replaced.
- `Stands`, `stands_of_blocks`: the node of a value stands for the value.
- `setEntry_of_not_mem`, `ofEntries_of_nodup`: entries of distinct names.
- `ofText_writeBlock`: the text of an object is read to it.
-/

namespace GrammarAudit

namespace Json

mutual

/-- A value with its texts replaced. -/
def mapTexts (f : String → String) : Json → Json
  | str s => str (f s)
  | list items => list (mapItems f items)
  | object fields => object (mapValues f fields)
  | value => value

/-- Items with their texts replaced. -/
def mapItems (f : String → String) : List Json → List Json
  | [] => []
  | item :: rest => mapTexts f item :: mapItems f rest

/-- Fields with the texts of their values replaced. -/
def mapValues (f : String → String) : List (String × Json) → List (String × Json)
  | [] => []
  | (name, value) :: rest => (name, mapTexts f value) :: mapValues f rest

end

end Json

namespace Yaml

open Cursor Scan

-- what a spelling stands for is too much to be unfolded by a unifier
attribute [local irreducible] scalarStyle

/-! ## Entries of distinct names -/

/-- The names of entries are texts. -/
def TextKeys (entries : List (Scalar × Value)) : Prop :=
  ∀ entry ∈ entries, ∃ name, entry.1 = .text name

theorem sameKey_text {a b : String} : (Scalar.text a).sameKey (.text b) = decide (a = b) := by
  show decide (Scalar.text a = .text b) = _
  simp

theorem setEntry_of_not_mem {entries : List (Scalar × Value)} {name : String} (value : Value)
    (hkeys : TextKeys entries) (h : .text name ∉ entries.map Prod.fst) :
    setEntry entries (.text name) value = entries ++ [(.text name, value)] := by
  induction entries with
  | nil => rfl
  | cons entry entries ih =>
    obtain ⟨key, v⟩ := entry
    obtain ⟨other, rfl⟩ : ∃ other, key = Scalar.text other := hkeys _ List.mem_cons_self
    rw [List.map_cons, List.mem_cons, not_or] at h
    have hother : ¬decide (other = name) = true := by
      rw [decide_eq_true_eq]
      rintro rfl
      exact h.1 rfl
    rw [setEntry, sameKey_text, if_neg hother,
      ih (fun entry hentry => hkeys entry (List.mem_cons_of_mem _ hentry)) h.2, List.cons_append]

/-- Setting entries of distinct new names lists them behind the others. -/
theorem foldl_setEntry (set : List (Scalar × Value)) {entries : List (Scalar × Value)}
    (hkeys : TextKeys (set ++ entries))
    (h : ((set ++ entries).map Prod.fst).Nodup) :
    entries.foldl (fun set (k, v) => setEntry set k v) set = set ++ entries := by
  induction entries generalizing set with
  | nil => rw [List.foldl_nil, List.append_nil]
  | cons entry entries ih =>
    obtain ⟨key, v⟩ := entry
    obtain ⟨name, rfl⟩ : ∃ name, key = Scalar.text name :=
      hkeys _ (List.mem_append_right _ List.mem_cons_self)
    have hnew : Scalar.text name ∉ set.map Prod.fst := by
      rw [List.map_append, List.nodup_append] at h
      exact fun hmem => h.2.2 _ hmem _ List.mem_cons_self rfl
    have hassoc : set ++ [(.text name, v)] ++ entries = set ++ (.text name, v) :: entries := by
      rw [List.append_assoc, List.singleton_append]
    rw [List.foldl_cons]
    show List.foldl _ (setEntry set (.text name) v) entries = _
    have hset : TextKeys set := fun entry hentry =>
      hkeys entry (List.mem_append_left _ hentry)
    rw [setEntry_of_not_mem v hset hnew, ih _ (by rwa [hassoc]) (by rwa [hassoc]), hassoc]

/-- The mapping of entries of distinct names has just these. -/
theorem ofEntries_of_nodup {entries : List (Scalar × Value)} (hkeys : TextKeys entries)
    (h : (entries.map Prod.fst).Nodup) : Value.ofEntries entries = .mapping entries := by
  rw [Value.ofEntries, foldl_setEntry [] hkeys h, List.nil_append]

/-! ## Values of nodes -/

variable {i : Nat} {v : Json}

/-- The node of a value stands for the value, up to its texts. -/
def Stands (v : Json) : Prop :=
  ∃ value, Value.ofNode (blockNode v) = .ok value ∧ value.toJson? = some (v.mapTexts readBack)

theorem plainKind_of_scalarStyle {s : List Char} (h : scalarStyle s = .plain) :
    plainKind s = .text := by
  unfold scalarStyle at h
  by_cases hplain : isPlainText s = true
  · simp only [isPlainText, Bool.and_eq_true, decide_eq_true_eq] at hplain
    exact hplain.1.1.1.1.1
  · rw [if_neg hplain] at h
    split at h
    · cases h
    · cases h

theorem ofPlain_text {s : List Char} (h : plainKind s = .text) :
    Scalar.ofPlain s = .ok (.text (String.ofList s)) := by
  rw [Scalar.ofPlain, h]

theorem stands_leaf (hv : Leaf i v) : Stands v := by
  have hplain {text : List Char} {scalar : Scalar} (h : Scalar.ofPlain text = .ok scalar) :
      Value.ofNode (.scalar text true) = .ok (.scalar scalar) := by
    show Value.scalar <$> Scalar.ofPlain text = _
    rw [h]
    rfl
  cases hv with
  | bool b => exact ⟨_, hplain (ofPlain_bool b), rfl⟩
  | @num n hn =>
    cases n with
    | int n => exact ⟨_, hplain (ofPlain_decimal n), rfl⟩
    | real x =>
      have hx : x.InFormat := hn
      exact ⟨_, hplain (ofPlain_realText hx), rfl⟩
  | str s hroom =>
    refine ⟨.scalar (.text (readBack s)), ?_, rfl⟩
    show Value.ofNode (.scalar (readBack s).toList (scalarStyle s.toList = .plain)) = _
    by_cases hstyle : scalarStyle s.toList = .plain
    · have hsame : readBack s = s := by
        rw [readBack, hstyle]
        exact if_neg ScalarStyle.noConfusion
      rw [decide_eq_true hstyle, hsame, hplain (ofPlain_text (plainKind_of_scalarStyle hstyle)),
        String.ofList_toList]
    · rw [decide_eq_false hstyle]
      show Except.ok (Value.scalar (.text (String.ofList (readBack s).toList))) = _
      rw [String.ofList_toList]

theorem stands_items {items : List Json} (h : ∀ item ∈ items, Stands item) :
    ∃ values, Value.ofNodes (itemNodes items) = .ok values ∧
      Value.itemsToJson? values = some (Json.mapItems readBack items) := by
  induction items with
  | nil => exact ⟨[], rfl, rfl⟩
  | cons item items ih =>
    obtain ⟨value, hvalue, hjson⟩ := h item List.mem_cons_self
    obtain ⟨values, hvalues, hjsons⟩ := ih fun item hitem => h item (List.mem_cons_of_mem _ hitem)
    refine ⟨value :: values, ?_, ?_⟩
    · show (Value.ofNode (blockNode item) >>= fun value =>
        Value.ofNodes (itemNodes items) >>= fun values => return value :: values) = _
      rw [hvalue]
      show (Value.ofNodes (itemNodes items) >>= fun values => return value :: values) = _
      rw [hvalues]
      rfl
    · show (value.toJson?.bind fun value =>
        (Value.itemsToJson? values).bind fun values => some (value :: values)) = _
      rw [hjson, hjsons]
      rfl

/-- The name of a field is a key that stands for itself. -/
theorem ofNodeEntries_cons {name : List Char} (hname : IsName name) {n : Node} {value : Value}
    {rest : List (Node × Node)} {own : List (Scalar × Value)} (hvalue : Value.ofNode n = .ok value)
    (hrest : Value.ofNodeEntries rest = .ok ([], own)) :
    Value.ofNodeEntries ((.scalar name true, n) :: rest) =
      .ok ([], (.text (String.ofList name), value) :: own) := by
  have hword (c : Char) (t : List Char) (hc : isKeyChar c = false) : name ≠ c :: t := by
    rintro rfl
    exact Bool.false_ne_true (hc.symm.trans (hname.1.2 c List.mem_cons_self))
  have hkey : Value.ofNode (.scalar name true) = .ok (.scalar (.text (String.ofList name))) := by
    show Value.scalar <$> Scalar.ofPlain name = _
    rw [ofPlain_text hname.2.2]
    rfl
  rw [Value.ofNodeEntries.eq_def]
  split
  · next h => cases h
  · next h =>
    simp only [List.cons.injEq, Prod.mk.injEq, Node.scalar.injEq] at h
    exact absurd h.1.1.1 (hword '<' _ rfl)
  · next h =>
    simp only [List.cons.injEq, Prod.mk.injEq, Node.scalar.injEq] at h
    exact absurd h.1.1.1 (hword '=' _ rfl)
  · next keyNode node rest' _ _ h =>
    simp only [List.cons.injEq, Prod.mk.injEq] at h
    obtain ⟨⟨rfl, rfl⟩, rfl⟩ := h
    rw [hkey, hvalue, hrest]
    rfl

theorem stands_fields {fields : List (String × Json)}
    (hnames : ∀ field ∈ fields, IsName field.1.toList) (h : ∀ field ∈ fields, Stands field.2) :
    ∃ own, Value.ofNodeEntries (fieldNodes fields) = .ok ([], own) ∧
      own.map Prod.fst = fields.map (fun field => Scalar.text field.1) ∧
      Value.entriesToJson? own = some (Json.mapValues readBack fields) := by
  induction fields with
  | nil => exact ⟨[], rfl, rfl, rfl⟩
  | cons field fields ih =>
    obtain ⟨name, v⟩ := field
    obtain ⟨value, hvalue, hjson⟩ : Stands v := h _ List.mem_cons_self
    obtain ⟨own, hown, hkeys, hjsons⟩ := ih
      (fun field hfield => hnames field (List.mem_cons_of_mem _ hfield))
      (fun field hfield => h field (List.mem_cons_of_mem _ hfield))
    have hentries := ofNodeEntries_cons (hnames _ List.mem_cons_self) hvalue hown
    rw [String.ofList_toList] at hentries
    refine ⟨(.text name, value) :: own, hentries, ?_, ?_⟩
    · rw [List.map_cons, List.map_cons, hkeys]
    · show (value.toJson?.bind fun value =>
        (Value.entriesToJson? own).bind fun fields => some ((name, value) :: fields)) = _
      rw [hjson, hjsons]
      rfl

theorem stands_object {fields : List (String × Json)} (hnodup : (fields.map Prod.fst).Nodup)
    (hnames : ∀ field ∈ fields, IsName field.1.toList) (h : ∀ field ∈ fields, Stands field.2) :
    Stands (.object fields) := by
  obtain ⟨own, hown, hkeys, hjson⟩ := stands_fields hnames h
  have htexts : TextKeys own := by
    intro entry hentry
    have hkey := List.mem_map_of_mem (f := Prod.fst) hentry
    rw [hkeys] at hkey
    obtain ⟨field, -, hfield⟩ := List.mem_map.mp hkey
    exact ⟨field.1, hfield.symm⟩
  have hdistinct : (own.map Prod.fst).Nodup := by
    have htext : fields.map (fun field => Scalar.text field.1) =
        (fields.map Prod.fst).map Scalar.text := by
      rw [List.map_map]
      rfl
    rw [hkeys, htext]
    exact List.Pairwise.map Scalar.text (fun _ _ hne hsame => hne (Scalar.text.inj hsame)) hnodup
  refine ⟨.mapping own, ?_, ?_⟩
  · show (Value.ofNodeEntries (fieldNodes fields) >>= fun r =>
      return Value.ofEntries (r.1 ++ r.2)) = _
    rw [hown]
    exact congrArg Except.ok (ofEntries_of_nodup htexts hdistinct)
  · show (Json.object <$> Value.entriesToJson? own) = _
    rw [hjson]
    rfl

/-- **The node of a value stands for the value**, up to its texts. -/
theorem stands_of_blocks (h : Blocks i v) : Stands v := by
  induction h with
  | leaf hv => exact stands_leaf hv
  | list _ _ ih =>
    obtain ⟨values, hvalues, hjson⟩ := stands_items ih
    refine ⟨.sequence values, ?_, ?_⟩
    · show (Value.sequence <$> Value.ofNodes (itemNodes _)) = _
      rw [hvalues]
      rfl
    · show (Json.list <$> Value.itemsToJson? values) = _
      rw [hjson]
      rfl
  | object _ hnodup hnames _ ih => exact stands_object hnodup hnames ih

/-! ## Documents -/

/-- The fields of an object whose text is a document: they start in the first column. -/
structure DocumentFields (fields : List (String × Json)) : Prop where
  ne_nil : fields ≠ []
  nodup : (fields.map Prod.fst).Nodup
  names : ∀ field ∈ fields, IsName field.1.toList
  blocks : ∀ field ∈ fields, Blocks 0 field.2

variable {fields : List (String × Json)}

/-- The line break behind the last field ends the document. -/
theorem nextReads_end (name : String) (value : Json) (rest : List (String × Json)) :
    NextReads 0 ['\n'] ((fieldTokens rest).reverse ++ ((blockTokens value).reverse ++
      .value :: .scalar name.toList true :: .key :: [.blockMappingStart])) (0 : Nat) [-1]
      (blockTokens (.object ((name, value) :: rest))) := by
  refine ⟨0, [], Nat.le_refl 0, rfl, .done, fun line => ?_⟩
  have htokens : blockTokens (.object ((name, value) :: rest)) =
      (Token.blockEnd :: ((fieldTokens rest).reverse ++ ((blockTokens value).reverse ++
        .value :: .scalar name.toList true :: .key :: [.blockMappingStart]))).reverse := by
    show Token.blockMappingStart :: (Token.key :: .scalar name.toList true :: .value ::
      (blockTokens value ++ fieldTokens rest) ++ [.blockEnd]) = _
    simp
  rw [htokens]
  exact reads_done

/-- The tokens of a document. -/
theorem ofText_tokens (h : DocumentFields fields) :
    Token.ofText (writeBlock 0 (.object fields) ++ ['\n']) =
      .ok (blockTokens (.object fields)) := by
  obtain ⟨hne, -, hnames, hblocks⟩ := h
  obtain ⟨⟨name, value⟩, rest, rfl⟩ := List.exists_cons_of_ne_nil hne
  have hname : IsName name.toList := hnames _ List.mem_cons_self
  have hvalue : Blocks 0 value := hblocks _ List.mem_cons_self
  have hrest : ∀ field ∈ rest, IsName field.1.toList ∧ Blocks 0 field.2 := fun field hfield =>
    ⟨hnames field (List.mem_cons_of_mem _ hfield), hblocks field (List.mem_cons_of_mem _ hfield)⟩
  have htext : writeBlock 0 (.object ((name, value) :: rest)) ++ ['\n'] =
      writeField 0 name.toList value ++ (writeFields 0 rest ++ ['\n']) :=
    List.append_assoc _ _ _
  rw [htext]
  have hlegible : (writeField 0 name.toList value ++ (writeFields 0 rest ++ ['\n'])).all isAllowed =
      true := by
    refine List.all_eq_true.mpr ?_
    exact (legible_writeField hname (legible_of_blocks hvalue)).append
      ((legible_fields (fun field hfield => (hrest field hfield).1)
        fun field hfield => legible_of_blocks (hrest field hfield).2).append
        (.cons rfl legible_nil))
  have hmark : (Cursor.ofText (writeField 0 name.toList value ++
      (writeFields 0 rest ++ ['\n']))).sees (· = byteOrderMark) = false := by
    obtain ⟨x, r, hx⟩ := List.exists_cons_of_ne_nil hname.1.1
    have hletter := hname.1.2 x (by rw [hx]; exact List.mem_cons_self)
    rw [writeField_eq 0 hname, hx]
    exact decide_eq_false (isKeyChar_ne hletter (by decide))
  have hfields := nextReads_fields (fun field hfield => scans_of_blocks (hrest field hfield).2)
    (fun field hfield => (hrest field hfield).1) (nextReads_end name value rest)
  have hread : (between (before (writeField 0 name.toList value ++ (writeFields 0 rest ++ ['\n'])) 0
      0) [] (-1) [] true).Reads (blockTokens (.object ((name, value) :: rest))) :=
    reads_firstField hname (by decide) ((scans_of_blocks hvalue).behindName hfields)
  rw [Token.ofText, if_pos hlegible]
  dsimp only
  rw [hmark, if_neg Bool.false_ne_true]
  exact hread _ (Nat.le_refl _)

/-- **The text of an object is read to it**, up to its texts. -/
theorem ofText_writeBlock (h : DocumentFields fields) :
    ∃ value, Value.ofText (writeBlock 0 (.object fields) ++ ['\n']) = .ok value ∧
      value.toJson? = some ((Json.object fields).mapTexts readBack) := by
  obtain ⟨value, hvalue, hjson⟩ := stands_object h.nodup h.names fun field hfield =>
    stands_of_blocks (h.blocks field hfield)
  refine ⟨value, ?_, hjson⟩
  have hbare : Bare (blockNode (.object fields)) := bare_mapping fun field hfield =>
    bare_of_blocks (h.blocks field hfield)
  rw [Value.ofText, ofText_tokens h]
  show (Node.ofTokens (blockTokens (.object fields)) >>= _) = _
  rw [ofTokens_object h.blocks]
  show ((blockNode (.object fields)).expand [] >>= _) = _
  rw [hbare]
  exact hvalue

end Yaml

end GrammarAudit
