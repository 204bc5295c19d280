import GrammarAudit.Finding.Hint
import GrammarAudit.Proofs.Distinct
import Mathlib.Data.List.Forall2
import Mathlib.Data.List.Induction
import Mathlib.Data.List.Perm.Subperm

/-!
# Classes of alternatives with a common token

The alternatives of a rule fall into classes by the token that they start with, up to case. The
classes can be written down alternative by alternative, each position at the end of the class of its
token or in a class of its own. A parser rule has one hint for each class of two or more, in the
order of first positions; alternatives that start with no token are in no hint.

- `mem_positionsOf_iff`, `pairwise_positionsOf`: the positions at which a key stands.
- `addPosition`, `groupInTurn`: the classes written down alternative by alternative.
- `addPosition_tokenGroups`, `groupInTurn_eq`: what one more alternative does, and all of them.
- `ShareToken`, `ShowsClasses`: what the hints of a rule say about its alternatives.
- `ambiguityHints_classes`: the hints of any rules.
-/

namespace GrammarAudit

open Grammar

variable {keys : List String} {key : String}

/-! ## Positions of a key -/

theorem mem_positionsOf_iff {i : Nat} : i ∈ positionsOf keys key ↔ keys[i]? = some key := by
  rw [positionsOf, List.mem_map]
  constructor
  · rintro ⟨⟨other, j⟩, hentry, rfl⟩
    obtain ⟨hmem, hkey⟩ := List.mem_filter.mp hentry
    obtain rfl : other = key := of_decide_eq_true hkey
    exact List.mem_zipIdx_iff_getElem?.mp hmem
  · intro hi
    exact ⟨(key, i), List.mem_filter.mpr ⟨List.mem_zipIdx_iff_getElem?.mpr hi, by simp⟩, rfl⟩

theorem pairwise_positionsOf (keys : List String) (key : String) :
    (positionsOf keys key).Pairwise (· < ·) := by
  have hsublist : (positionsOf keys key).Sublist (keys.zipIdx.map Prod.snd) :=
    List.filter_sublist.map Prod.snd
  rw [List.zipIdx_map_snd] at hsublist
  exact List.Pairwise.sublist hsublist (List.pairwise_lt_range' 1)

/-- A key at the end of a list adds its position there. -/
theorem positionsOf_concat (keys : List String) (last key : String) :
    positionsOf (keys ++ [last]) key =
      positionsOf keys key ++ if last = key then [keys.length] else [] := by
  rw [positionsOf, List.zipIdx_append, List.filter_append, List.map_append, positionsOf]
  congr 1
  by_cases h : last = key
  · simp [h]
  · simp [h]

theorem positionsOf_of_not_mem (h : key ∉ keys) : positionsOf keys key = [] := by
  refine List.eq_nil_iff_forall_not_mem.mpr fun i hi => ?_
  exact h (List.mem_of_getElem? (mem_positionsOf_iff.mp hi))

/-- A key that stands at two places has two positions. -/
theorem two_le_length_positionsOf {i j : Nat} (hne : i ≠ j) (hi : keys[i]? = some key)
    (hj : keys[j]? = some key) : 2 ≤ (positionsOf keys key).length := by
  have hsubset : [i, j] ⊆ positionsOf keys key := by
    intro n hn
    rcases List.mem_pair.mp hn with rfl | rfl
    · exact mem_positionsOf_iff.mpr hi
    · exact mem_positionsOf_iff.mpr hj
  exact (List.Nodup.subperm (by simpa using hne) hsubset).length_le

/-! ## Writing the classes down -/

/-- Writes a position down at its key: at the end of the group of the key, or in a new group behind
the others. -/
def addPosition (groups : List (String × List Nat)) (entry : String × Nat) :
    List (String × List Nat) :=
  if entry.1 ∈ groups.map Prod.fst then
    groups.map fun group =>
      if group.1 = entry.1 then (group.1, group.2 ++ [entry.2]) else group
  else groups ++ [(entry.1, [entry.2])]

/-- The first tokens of the alternatives with their positions, written down alternative by
alternative. -/
def groupInTurn (alternatives : List (List Char)) : List (String × List Nat) :=
  (alternatives.map tokenKey).zipIdx.foldl addPosition []

/-- The distinct keys with their positions. -/
def tokenGroups (keys : List String) : List (String × List Nat) :=
  (distinct keys).map fun key => (key, positionsOf keys key)

/-- One more key at the end: its position goes to its group. -/
theorem addPosition_tokenGroups (keys : List String) (last : String) :
    addPosition (tokenGroups keys) (last, keys.length) = tokenGroups (keys ++ [last]) := by
  have hkeys : (tokenGroups keys).map Prod.fst = distinct keys := by
    rw [tokenGroups, List.map_map]
    exact List.map_id _
  have hmem : last ∈ (tokenGroups keys).map Prod.fst ↔ last ∈ keys := by
    rw [hkeys, mem_distinct]
  by_cases hlast : last ∈ keys
  · -- the key has a group, and no other group changes
    rw [addPosition, if_pos (hmem.mpr hlast), tokenGroups, tokenGroups, distinct_concat,
      if_pos (mem_distinct.mpr hlast), List.map_map]
    refine List.map_congr_left fun key _ => ?_
    rw [positionsOf_concat]
    by_cases hkey : key = last
    · simp [hkey]
    · simp [hkey, Ne.symm hkey]
  · rw [addPosition, if_neg fun h => hlast (hmem.mp h), tokenGroups, tokenGroups,
      distinct_concat, if_neg fun h => hlast (mem_distinct.mp h), List.map_append,
      List.map_singleton]
    congr 1
    · refine List.map_congr_left fun key hkey => ?_
      have hne : last ≠ key := fun h => hlast (h ▸ mem_distinct.mp hkey)
      rw [positionsOf_concat, if_neg hne, List.append_nil]
    · rw [positionsOf_concat, if_pos rfl, positionsOf_of_not_mem hlast, List.nil_append]

/-- Key by key the groups are written down as they are. -/
theorem foldl_addPosition (keys : List String) :
    keys.zipIdx.foldl addPosition [] = tokenGroups keys := by
  induction keys using List.reverseRecOn with
  | nil => rfl
  | append_singleton keys last ih =>
    rw [List.zipIdx_append, List.foldl_append, ih, List.zipIdx_singleton, List.foldl_cons,
      List.foldl_nil, Nat.zero_add, addPosition_tokenGroups]

theorem groupInTurn_eq (alternatives : List (List Char)) :
    groupInTurn alternatives = groupByToken alternatives :=
  foldl_addPosition (alternatives.map tokenKey)

/-! ## The hints of a rule -/

/-- The keys by which the alternatives of a rule are compared. -/
def Rule.tokenKeys (rule : Rule) : List String :=
  (splitAlternatives rule.text.toList).map tokenKey

/-- The alternatives at two positions start with the same token, up to case. -/
def ShareToken (rule : Rule) (i j : Nat) : Prop :=
  ∃ token, token ≠ "" ∧ rule.tokenKeys[i]? = some token ∧ rule.tokenKeys[j]? = some token

/-- The hints of a rule are the classes of two or more of its alternatives that start with the same
token: a hint lists all positions of its token in order, two alternatives are in one hint exactly if
they share their token, no alternative is in two hints, and the hints come in the order of their
first positions. -/
structure ShowsClasses (rule : Rule) (hints : List Hint) : Prop where
  is_class : ∀ hint ∈ hints, ∃ token positions, hint = Hint.ofGroup rule token positions ∧
    token ≠ "" ∧ 2 ≤ positions.length ∧ ∀ i, i ∈ positions ↔ rule.tokenKeys[i]? = some token
  increasing : ∀ hint ∈ hints, hint.alternatives.Pairwise (· < ·)
  in_range : ∀ hint ∈ hints, ∀ i ∈ hint.alternatives,
    0 ≤ i ∧ i < (splitAlternatives rule.text.toList).length
  together_iff : ∀ i j : Nat, i ≠ j →
    ((∃ hint ∈ hints, (i : Int) ∈ hint.alternatives ∧ (j : Int) ∈ hint.alternatives) ↔
      ShareToken rule i j)
  disjoint : hints.Pairwise fun hint hint' => hint.alternatives.Disjoint hint'.alternatives
  ordered : hints.Pairwise fun hint hint' => ∀ i j, hint.alternatives.head? = some i →
    hint'.alternatives.head? = some j → i < j

/-- The hint for the alternatives of a rule that start with a token. -/
def Rule.hintFor (rule : Rule) (token : String) : Hint :=
  Hint.ofGroup rule token (positionsOf rule.tokenKeys token)

/-- The tokens that two or more alternatives of a rule start with, in the order of first places. -/
def Rule.sharedTokens (rule : Rule) : List String :=
  (distinct rule.tokenKeys).filter fun token =>
    token ≠ "" ∧ 2 ≤ (positionsOf rule.tokenKeys token).length

variable {rule : Rule} {token : String}

theorem hintsOf_eq_map_sharedTokens (parser : rule.kind = .parser) :
    hintsOf rule = rule.sharedTokens.map rule.hintFor := by
  rw [hintsOf, if_pos parser, Rule.sharedTokens]
  show ((tokenGroups rule.tokenKeys).filter _).map _ = _
  rw [tokenGroups, List.filter_map, List.map_map]
  refine congrArg₂ List.map rfl (List.filter_congr fun key _ => ?_)
  simp

theorem mem_alternatives_hintFor {i : Int} : i ∈ (rule.hintFor token).alternatives ↔
    ∃ n : Nat, rule.tokenKeys[n]? = some token ∧ (n : Int) = i := by
  show i ∈ (positionsOf rule.tokenKeys token).map _ ↔ _
  simp only [List.mem_map, mem_positionsOf_iff]

theorem natCast_mem_hintFor {i : Nat} : (i : Int) ∈ (rule.hintFor token).alternatives ↔
    rule.tokenKeys[i]? = some token := by
  rw [mem_alternatives_hintFor]
  constructor
  · rintro ⟨n, hn, hcast⟩
    rwa [← Int.ofNat.inj hcast]
  · intro hi
    exact ⟨i, hi, rfl⟩

theorem pairwise_hintFor (rule : Rule) (token : String) :
    (rule.hintFor token).alternatives.Pairwise (· < ·) := by
  show ((positionsOf rule.tokenKeys token).map _).Pairwise _
  rw [List.pairwise_map]
  exact (pairwise_positionsOf _ _).imp Int.ofNat_lt.mpr

/-- A hint begins with the least position of its token. -/
theorem head_hintFor_le {i : Int} {n : Nat}
    (hi : (rule.hintFor token).alternatives.head? = some i)
    (hn : rule.tokenKeys[n]? = some token) : i ≤ n := by
  obtain ⟨rest, hrest⟩ := List.head?_eq_some_iff.mp hi
  have hmem := natCast_mem_hintFor.mpr hn
  have hincreasing := pairwise_hintFor rule token
  rw [hrest] at hmem hincreasing
  rcases List.mem_cons.mp hmem with heq | hmem
  · exact Int.le_of_eq heq.symm
  · exact Int.le_of_lt ((List.pairwise_cons.mp hincreasing).1 n hmem)

/-- No alternative starts with two tokens. -/
theorem disjoint_hintFor {token' : String} (hne : token ≠ token') :
    (rule.hintFor token).alternatives.Disjoint (rule.hintFor token').alternatives := by
  intro i hi hi'
  obtain ⟨n, hn, rfl⟩ := mem_alternatives_hintFor.mp hi
  exact hne (Option.some.inj (hn.symm.trans (natCast_mem_hintFor.mp hi')))

theorem mem_sharedTokens_iff : token ∈ rule.sharedTokens ↔
    token ≠ "" ∧ 2 ≤ (positionsOf rule.tokenKeys token).length := by
  rw [Rule.sharedTokens, List.mem_filter, mem_distinct, decide_eq_true_eq]
  refine and_iff_right_of_imp fun h => ?_
  obtain ⟨n, hn⟩ := List.exists_mem_of_length_pos (Nat.lt_of_succ_lt h.2)
  exact List.mem_of_getElem? (mem_positionsOf_iff.mp hn)

/-- The hints of a parser rule are the classes of its alternatives. -/
theorem showsClasses_hintsOf (parser : rule.kind = .parser) :
    ShowsClasses rule (hintsOf rule) := by
  rw [hintsOf_eq_map_sharedTokens parser]
  refine ⟨?is_class, ?increasing, ?in_range, ?together, ?disjoint, ?ordered⟩
  case is_class =>
    intro hint hhint
    obtain ⟨token, htoken, rfl⟩ := List.mem_map.mp hhint
    obtain ⟨nonempty, htwo⟩ := mem_sharedTokens_iff.mp htoken
    exact ⟨token, _, rfl, nonempty, htwo, fun _ => mem_positionsOf_iff⟩
  case increasing =>
    intro hint hhint
    obtain ⟨token, -, rfl⟩ := List.mem_map.mp hhint
    exact pairwise_hintFor rule token
  case in_range =>
    intro hint hhint i hi
    obtain ⟨token, -, rfl⟩ := List.mem_map.mp hhint
    obtain ⟨n, hn, rfl⟩ := mem_alternatives_hintFor.mp hi
    obtain ⟨hlt, -⟩ := List.getElem?_eq_some_iff.mp hn
    rw [Rule.tokenKeys, List.length_map] at hlt
    exact ⟨Int.natCast_nonneg n, Int.ofNat_lt.mpr hlt⟩
  case together =>
    intro i j hne
    constructor
    · rintro ⟨hint, hhint, hi, hj⟩
      obtain ⟨token, htoken, rfl⟩ := List.mem_map.mp hhint
      exact ⟨token, (mem_sharedTokens_iff.mp htoken).1, natCast_mem_hintFor.mp hi,
        natCast_mem_hintFor.mp hj⟩
    · rintro ⟨token, nonempty, hi, hj⟩
      have hshared := mem_sharedTokens_iff.mpr ⟨nonempty, two_le_length_positionsOf hne hi hj⟩
      exact ⟨rule.hintFor token, List.mem_map_of_mem hshared, natCast_mem_hintFor.mpr hi,
        natCast_mem_hintFor.mpr hj⟩
  case disjoint =>
    have hnodup : rule.sharedTokens.Nodup := (nodup_distinct _).filter _
    exact List.pairwise_map.mpr (hnodup.imp disjoint_hintFor)
  case ordered =>
    have hfirst : rule.sharedTokens.Pairwise fun a b =>
        ∀ j : Nat, rule.tokenKeys[j]? = some b → ∃ i < j, rule.tokenKeys[i]? = some a :=
      (pairwise_distinct rule.tokenKeys).sublist List.filter_sublist
    refine List.pairwise_map.mpr (hfirst.imp fun {a b} hbefore i j hi hj => ?_)
    -- the token of the first hint stands before the first place of the other one
    obtain ⟨n, hn, rfl⟩ := mem_alternatives_hintFor.mp (List.mem_of_mem_head? hj)
    obtain ⟨m, hlt, hm⟩ := hbefore n hn
    exact Int.lt_of_le_of_lt (head_hintFor_le hi hm) (Int.ofNat_lt.mpr hlt)

/-- **Hints are the classes of alternatives with a common token.** The hints of any rules come rule
by rule in order: for a parser rule they are the classes of two or more of its alternatives that
start with the same token up to case, and for any other rule there are none. The classes are those
that are written down alternative by alternative. -/
theorem ambiguityHints_classes (rules : List Rule) :
    (∃ sections, ambiguityHints rules = sections.flatten ∧
      List.Forall₂ (fun rule hints =>
        (rule.kind = .parser → ShowsClasses rule hints) ∧ (rule.kind ≠ .parser → hints = []))
        rules sections) ∧
      ∀ alternatives, groupInTurn alternatives = groupByToken alternatives := by
  refine ⟨⟨rules.map hintsOf, List.flatMap_def, ?_⟩, groupInTurn_eq⟩
  rw [List.forall₂_map_right_iff, List.forall₂_same]
  intro rule _
  constructor
  · exact showsClasses_hintsOf
  · intro hkind
    rw [hintsOf, if_neg hkind]

/-- Two classes that lie across each other; the alternative in parentheses is in neither. -/
example :
    let text := "a : 'X' b | c | (d) | 'x' | C e ;"
    let rule : Rule := ⟨"a", .parser, 1, 0, 1, 33, text, 5, [], []⟩
    (ambiguityHints [rule]).map (fun hint => (hint.alternatives, hint.commonTokens)) =
      [([0, 3], ["'x'"]), ([1, 4], ["c"])] := by
  decide +kernel

end GrammarAudit
