import GrammarAudit.Proofs.Yaml.Block
import GrammarAudit.Yaml.Value

/-!
# The nodes of a block

The tokens of a value are taken together again to the node that has its shape. The items of a list
have no boundaries around them in a block, so they end where the next token is no mark of an item.

- `blockNode`: the node of a value.
- `Takes`: the tokens of a value are taken to its node.
- `takes_of_blocks`: this holds of the values in block style.
- `ofTokens_object`: the node of a whole document.
-/

namespace GrammarAudit.Yaml

/-! ## Nodes of values -/

mutual

/-- The node of a value. -/
def blockNode : Json → Node
  | .list items => .sequence (itemNodes items)
  | .object fields => .mapping (fieldNodes fields)
  | value => .scalar (leafText value).1 (leafText value).2

/-- The nodes of items. -/
def itemNodes : List Json → List Node
  | [] => []
  | item :: rest => blockNode item :: itemNodes rest

/-- The nodes of fields. -/
def fieldNodes : List (String × Json) → List (Node × Node)
  | [] => []
  | (name, value) :: rest => (.scalar name.toList true, blockNode value) :: fieldNodes rest

end

variable {i fuel : Nat} {v : Json} {place : NodePlace} {rest : List Token}

/-! ## Taking tokens -/

/-- A value can stand at a place before some tokens. The items of a list would go on with the mark
of another item. -/
def Fits (v : Json) (place : NodePlace) (rest : List Token) : Prop :=
  place ≠ .flow ∧ ∀ items, v = .list items → place = .blockValue ∧ ∀ t ∈ rest.head?, t ≠ .blockEntry

/-- The tokens of a value are taken to its node. -/
def Takes (v : Json) : Prop :=
  -- no token takes more than four steps down to the node that it belongs to
  ∀ place fuel rest, 4 * (blockTokens v).length + 4 ≤ fuel → Fits v place rest →
    takeNode place fuel (blockTokens v ++ rest) = .ok (blockNode v, rest)

theorem takeNode_scalar (text : List Char) (isPlain : Bool) :
    takeNode place (fuel + 2) (.scalar text isPlain :: rest) = .ok (.scalar text isPlain, rest) :=
  rfl

/-- A value is not left out. -/
theorem nextIn_blockTokens (h : Blocks i v) (rest : List Token) :
    nextIn (blockTokens v ++ rest) [.key, .value, .blockEnd] = false ∧
      ((∀ items, v ≠ .list items) →
        nextIn (blockTokens v ++ rest) [.blockEntry, .key, .value, .blockEnd] = false) := by
  cases h with
  | leaf hv => cases hv <;> exact ⟨rfl, fun _ => rfl⟩
  | @list _ items hflat h =>
    refine ⟨?_, fun hlist => absurd rfl (hlist items)⟩
    cases items <;> rfl
  | object hne hnodup hnames h => exact ⟨rfl, fun _ => rfl⟩

theorem takes_leaf (hv : Leaf i v) : Takes v := by
  intro place fuel rest hfuel _
  obtain ⟨fuel, rfl⟩ : ∃ k, fuel = k + 2 := ⟨fuel - 2, by omega⟩
  cases hv <;> exact takeNode_scalar _ _

theorem takeUnless_blockTokens {marks : List Token} {n : Node} {tokens : List Token}
    (hmarks : nextIn tokens marks = false) (h : takeNode place fuel tokens = .ok (n, rest)) :
    takeUnless marks place (fuel + 1) tokens = .ok (n, rest) := by
  show (if nextIn tokens marks then .ok (.empty, tokens) else takeNode place fuel tokens) = _
  rw [hmarks, if_neg Bool.false_ne_true, h]

/-! ### Lists -/

theorem takeLevelItems_stop (hrest : ∀ t ∈ rest.head?, t ≠ .blockEntry) :
    takeLevelItems (fuel + 1) rest = .ok ([], rest) := by
  cases rest with
  | nil => rfl
  | cons t rest =>
    have ht := hrest t rfl
    cases t with
    | blockEntry => exact absurd rfl ht
    | _ => rfl

theorem takeLevelItems_cons {tokens tokens' : List Token} {item : Node} {items : List Node}
    (hitem : takeUnless [.blockEntry, .key, .value, .blockEnd] .block fuel tokens =
      .ok (item, tokens'))
    (hitems : takeLevelItems fuel tokens' = .ok (items, rest)) :
    takeLevelItems (fuel + 1) (.blockEntry :: tokens) = .ok (item :: items, rest) := by
  rw [takeLevelItems.eq_def]
  dsimp only [bind, Except.bind]
  rw [hitem]
  dsimp only
  rw [hitems]
  rfl

/-- Items are taken one after another, up to what is no item. -/
theorem takeLevelItems_itemTokens {items : List Json} (h : ∀ item ∈ items, Takes item)
    (hblocks : ∀ item ∈ items, Blocks i item)
    (hflat : ∀ item ∈ items, ∀ inner, item ≠ .list inner)
    (hrest : ∀ t ∈ rest.head?, t ≠ .blockEntry)
    (hfuel : 4 * (itemTokens items).length + 2 ≤ fuel) :
    takeLevelItems fuel (itemTokens items ++ rest) = .ok (itemNodes items, rest) := by
  induction items generalizing fuel with
  | nil =>
    obtain ⟨fuel, rfl⟩ : ∃ k, fuel = k + 1 := ⟨fuel - 1, by omega⟩
    exact takeLevelItems_stop hrest
  | cons item items ih =>
    have hlength : (itemTokens (item :: items)).length =
        (blockTokens item).length + (itemTokens items).length + 1 := by
      show (Token.blockEntry :: (blockTokens item ++ itemTokens items)).length = _
      simp
    obtain ⟨fuel, rfl⟩ : ∃ k, fuel = k + 2 := ⟨fuel - 2, by omega⟩
    have hitem := h item List.mem_cons_self
    have hflatItem := hflat item List.mem_cons_self
    have hnode := hitem .block fuel (itemTokens items ++ rest) (by omega)
      ⟨NodePlace.noConfusion, fun inner hinner => absurd hinner (hflatItem inner)⟩
    have hfuel : 4 * (itemTokens items).length + 2 ≤ fuel + 1 := by omega
    have htail := ih (fun item hitem => h item (List.mem_cons_of_mem _ hitem))
      (fun item hitem => hblocks item (List.mem_cons_of_mem _ hitem))
      (fun item hitem => hflat item (List.mem_cons_of_mem _ hitem)) hfuel
    have hmarks := (nextIn_blockTokens (hblocks item List.mem_cons_self)
      (itemTokens items ++ rest)).2 hflatItem
    have htokens : itemTokens (item :: items) ++ rest =
        .blockEntry :: (blockTokens item ++ (itemTokens items ++ rest)) := by
      show Token.blockEntry :: (blockTokens item ++ itemTokens items) ++ rest = _
      simp
    rw [htokens]
    exact takeLevelItems_cons (takeUnless_blockTokens hmarks hnode) htail

theorem takeNode_level {tokens : List Token} {items : List Node}
    (h : takeLevelItems fuel (.blockEntry :: tokens) = .ok (items, rest)) :
    takeNode .blockValue (fuel + 2) (.blockEntry :: tokens) = .ok (.sequence items, rest) := by
  show ((takeLevelItems fuel (.blockEntry :: tokens) >>= fun r =>
    return (Node.sequence r.1, r.2)) >>= fun r => return (Properties.apply {} r.1, r.2)) = _
  rw [h]
  rfl

theorem takes_list {items : List Json} (h : ∀ item ∈ items, Takes item)
    (hblocks : ∀ item ∈ items, Blocks i item)
    (hflat : ∀ item ∈ items, ∀ inner, item ≠ .list inner) : Takes (.list items) := by
  intro place fuel rest hfuel hfits
  obtain ⟨rfl, hrest⟩ := hfits.2 items rfl
  cases items with
  | nil =>
    have hlength : (blockTokens (.list [])).length = 2 := rfl
    obtain ⟨fuel, rfl⟩ : ∃ k, fuel = k + 3 := ⟨fuel - 3, by omega⟩
    rfl
  | cons item items =>
    have hlength : (blockTokens (.list (item :: items))).length =
        (itemTokens (item :: items)).length := rfl
    obtain ⟨fuel, rfl⟩ : ∃ k, fuel = k + 2 := ⟨fuel - 2, by omega⟩
    have hfuel : 4 * (itemTokens (item :: items)).length + 2 ≤ fuel := by omega
    have hitems := takeLevelItems_itemTokens h hblocks hflat hrest hfuel
    exact takeNode_level hitems

/-! ### Objects -/

theorem takeNode_mapping {tokens : List Token} {entries : List (Node × Node)}
    (hplace : place ≠ .flow) (h : takeBlockEntries fuel tokens = .ok (entries, rest)) :
    takeNode place (fuel + 2) (.blockMappingStart :: tokens) = .ok (.mapping entries, rest) := by
  show ((if place = .flow then Except.error Fault.malformed
    else takeBlockEntries fuel tokens >>= fun r => return (Node.mapping r.1, r.2)) >>= fun r =>
      return (Properties.apply {} r.1, r.2)) = _
  rw [if_neg hplace, h]
  rfl

theorem takeBlockEntries_stop :
    takeBlockEntries (fuel + 1) (.blockEnd :: rest) = .ok ([], rest) := rfl

theorem takeBlockEntries_cons {name : List Char} {tokens tokens' : List Token} {n : Node}
    {entries : List (Node × Node)}
    (hvalue : takeUnless [.key, .value, .blockEnd] .blockValue (fuel + 2) tokens = .ok (n, tokens'))
    (hentries : takeBlockEntries (fuel + 3) tokens' = .ok (entries, rest)) :
    takeBlockEntries (fuel + 4) (.key :: .scalar name true :: .value :: tokens) =
      .ok ((.scalar name true, n) :: entries, rest) := by
  show (takeUnless [.key, .value, .blockEnd] .blockValue (fuel + 2) tokens >>= fun value =>
    takeBlockEntries (fuel + 3) value.2 >>= fun r =>
      return ((Node.scalar name true, value.1) :: r.1, r.2)) = _
  rw [hvalue]
  show (takeBlockEntries (fuel + 3) tokens' >>= fun r =>
      return ((Node.scalar name true, n) :: r.1, r.2)) = _
  rw [hentries]
  rfl

/-- Fields are taken one after another, up to the end of the mapping. -/
theorem takeBlockEntries_fieldTokens {fields : List (String × Json)}
    (h : ∀ field ∈ fields, Takes field.2) (hblocks : ∀ field ∈ fields, Blocks i field.2)
    (hfuel : 4 * (fieldTokens fields).length + 1 ≤ fuel) :
    takeBlockEntries fuel (fieldTokens fields ++ .blockEnd :: rest) =
      .ok (fieldNodes fields, rest) := by
  induction fields generalizing fuel with
  | nil =>
    obtain ⟨fuel, rfl⟩ : ∃ k, fuel = k + 1 := ⟨fuel - 1, by omega⟩
    exact takeBlockEntries_stop
  | cons field fields ih =>
    obtain ⟨name, value⟩ := field
    have hlength : (fieldTokens ((name, value) :: fields)).length =
        (blockTokens value).length + (fieldTokens fields).length + 3 := by
      show (Token.key :: .scalar name.toList true :: .value ::
        (blockTokens value ++ fieldTokens fields)).length = _
      simp
    obtain ⟨fuel, rfl⟩ : ∃ k, fuel = k + 4 := ⟨fuel - 4, by omega⟩
    have hnext : ∀ t ∈ (fieldTokens fields ++ .blockEnd :: rest).head?, t ≠ .blockEntry := by
      intro t ht
      cases fields with
      | nil =>
        cases ht
        exact Token.noConfusion
      | cons field fields =>
        cases ht
        exact Token.noConfusion
    have hvalue : Takes value := h _ List.mem_cons_self
    have hnode := hvalue .blockValue (fuel + 1) (fieldTokens fields ++ .blockEnd :: rest) (by omega)
      ⟨NodePlace.noConfusion, fun _ _ => ⟨rfl, hnext⟩⟩
    have hfuel : 4 * (fieldTokens fields).length + 1 ≤ fuel + 3 := by omega
    have htail := ih (fun field hfield => h field (List.mem_cons_of_mem _ hfield))
      (fun field hfield => hblocks field (List.mem_cons_of_mem _ hfield)) hfuel
    have hmarks := (nextIn_blockTokens (hblocks _ List.mem_cons_self)
      (fieldTokens fields ++ .blockEnd :: rest)).1
    have htokens : fieldTokens ((name, value) :: fields) ++ .blockEnd :: rest =
        .key :: .scalar name.toList true :: .value ::
          (blockTokens value ++ (fieldTokens fields ++ .blockEnd :: rest)) := by
      show Token.key :: .scalar name.toList true :: .value ::
        (blockTokens value ++ fieldTokens fields) ++ .blockEnd :: rest = _
      simp
    rw [htokens]
    exact takeBlockEntries_cons (takeUnless_blockTokens hmarks hnode) htail

theorem takes_object {fields : List (String × Json)} (h : ∀ field ∈ fields, Takes field.2)
    (hblocks : ∀ field ∈ fields, Blocks i field.2) : Takes (.object fields) := by
  intro place fuel rest hfuel hfits
  have htokens : blockTokens (.object fields) ++ rest =
      .blockMappingStart :: (fieldTokens fields ++ .blockEnd :: rest) := by
    show Token.blockMappingStart :: (fieldTokens fields ++ [.blockEnd]) ++ rest = _
    simp
  have hlength : (blockTokens (.object fields)).length = (fieldTokens fields).length + 2 := by
    show (Token.blockMappingStart :: (fieldTokens fields ++ [.blockEnd])).length = _
    simp
  obtain ⟨fuel, rfl⟩ : ∃ k, fuel = k + 2 := ⟨fuel - 2, by omega⟩
  rw [htokens]
  exact takeNode_mapping hfits.1 (takeBlockEntries_fieldTokens h hblocks (by omega))

/-- **The tokens of a value are taken to its node.** -/
theorem takes_of_blocks (h : Blocks i v) : Takes v := by
  induction h with
  | leaf hv => exact takes_leaf hv
  | list hflat h ih => exact takes_list ih h hflat
  | object _ _ _ h ih => exact takes_object ih h

/-- The node of a document that holds one object. -/
theorem ofTokens_object {fields : List (String × Json)} (h : ∀ field ∈ fields, Blocks i field.2) :
    Node.ofTokens (blockTokens (.object fields)) = .ok (some (blockNode (.object fields))) := by
  have htakes := takes_object (fun field hfield => takes_of_blocks (h field hfield)) h .block _ []
    (Nat.le_refl _) ⟨NodePlace.noConfusion, fun _ hlist => nomatch hlist⟩
  rw [List.append_nil] at htakes
  show (takeNode .block (4 * (blockTokens (.object fields)).length + 4)
    (blockTokens (.object fields)) >>= fun r =>
      if onlyEnds r.2 then return some r.1 else .error .malformed) = _
  rw [htakes]
  rfl

/-! ## Nodes without aliases -/

/-- A node has no anchors and no aliases. -/
def Bare (n : Node) : Prop :=
  ∀ known, n.expand known = .ok (n, known)

theorem expandItems_itemNodes {items : List Json} (h : ∀ item ∈ items, Bare (blockNode item))
    (known : Anchors) : expandItems known (itemNodes items) = .ok (itemNodes items, known) := by
  induction items with
  | nil => rfl
  | cons item items ih =>
    have hrest := ih fun item hitem => h item (List.mem_cons_of_mem _ hitem)
    show ((blockNode item).expand known >>= fun item =>
      expandItems item.2 (itemNodes items) >>= fun rest => return (item.1 :: rest.1, rest.2)) = _
    rw [h item List.mem_cons_self known]
    show (expandItems known (itemNodes items) >>= fun rest =>
      return (blockNode item :: rest.1, rest.2)) = _
    rw [hrest]
    rfl

theorem expandEntries_fieldNodes {fields : List (String × Json)}
    (h : ∀ field ∈ fields, Bare (blockNode field.2)) (known : Anchors) :
    expandEntries known (fieldNodes fields) = .ok (fieldNodes fields, known) := by
  induction fields with
  | nil => rfl
  | cons field fields ih =>
    obtain ⟨name, value⟩ := field
    have hrest := ih fun field hfield => h field (List.mem_cons_of_mem _ hfield)
    have hvalue : (blockNode value).expand known = .ok (blockNode value, known) :=
      h _ List.mem_cons_self known
    show ((blockNode value).expand known >>= fun value =>
      expandEntries value.2 (fieldNodes fields) >>= fun rest =>
        return ((Node.scalar name.toList true, value.1) :: rest.1, rest.2)) = _
    rw [hvalue]
    show (expandEntries known (fieldNodes fields) >>= fun rest =>
      return ((Node.scalar name.toList true, blockNode value) :: rest.1, rest.2)) = _
    rw [hrest]
    rfl

theorem bare_mapping {fields : List (String × Json)}
    (h : ∀ field ∈ fields, Bare (blockNode field.2)) : Bare (blockNode (.object fields)) := by
  intro known
  show (expandEntries known (fieldNodes fields) >>= fun r => return (Node.mapping r.1, r.2)) = _
  rw [expandEntries_fieldNodes h]
  rfl

/-- The node of a value has no anchors and no aliases. -/
theorem bare_of_blocks (h : Blocks i v) : Bare (blockNode v) := by
  induction h with
  | leaf hv =>
    intro known
    cases hv <;> rfl
  | @list _ items _ _ ih =>
    intro known
    show (expandItems known (itemNodes items) >>= fun r => return (Node.sequence r.1, r.2)) = _
    rw [expandItems_itemNodes ih]
    rfl
  | object _ _ _ _ ih => exact bare_mapping ih

end GrammarAudit.Yaml
