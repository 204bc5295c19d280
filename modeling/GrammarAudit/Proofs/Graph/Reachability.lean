import GrammarAudit.Graph.Recursion

/-!
# The search finds what paths lead to

The search keeps what it has reached closed: whatever a reached name mentions has been reached or is
pending. When nothing is pending any more, everything that a path leads to has been reached, and a
name is only ever reached along a path.

- `Graph.subset_visit`, `Graph.mem_visit_of_pending`: what is reached and what is pending is found.
- `Graph.visit_closed`: what is found is closed under mentions.
- `Graph.visit_induction`: what is found has every property that mentions pass on.
- `Graph.mem_reachableFrom_iff`: the names found from a name are the ends of the paths from it.
- `Graph.isIndirect_iff`: indirect recursion in terms of paths.
-/

namespace GrammarAudit.Graph

variable {g : Graph}

/-! ## The nodes of names -/

theorem defines_iff {name : String} : g.defines name ↔ ∃ node, g.node? name = some node :=
  Option.isSome_iff_exists

theorem referencesOf_of_node? {name : String} {node : Node} (h : g.node? name = some node) :
    g.referencesOf name = node.references := by
  rw [referencesOf, h]

theorem not_defines_of_node? {name : String} (h : g.node? name = none) : ¬g.defines name := by
  rw [defines, h]
  exact Bool.false_ne_true

/-! ## One step of the search -/

theorem visit_nil (reached : List String) : g.visit reached [] = reached := by
  rw [visit]

theorem visit_seen {reached rest : List String} {name : String} (h : name ∈ reached) :
    g.visit reached (name :: rest) = g.visit reached rest := by
  rw [visit, dif_pos h]

theorem visit_undefined {reached rest : List String} {name : String} (fresh : name ∉ reached)
    (h : g.node? name = none) : g.visit reached (name :: rest) = g.visit reached rest := by
  rw [visit, dif_neg fresh]
  split
  · rfl
  · next found => rw [h] at found; cases found

theorem visit_fresh {reached rest : List String} {name : String} {node : Node}
    (fresh : name ∉ reached) (h : g.node? name = some node) :
    g.visit reached (name :: rest) = g.visit (name :: reached) (node.references ++ rest) := by
  rw [visit, dif_neg fresh]
  split
  · next found => rw [h] at found; cases found
  · next found =>
    rw [h] at found
    cases found
    rfl

/-! ## The whole search -/

/-- What has been reached is found. -/
theorem subset_visit (reached pending : List String) : reached ⊆ g.visit reached pending := by
  induction reached, pending using visit.induct g with
  | case1 reached => rw [visit_nil]; exact List.Subset.refl reached
  | case2 reached name rest seen ih => rwa [visit_seen seen]
  | case3 reached name rest fresh undefined ih => rwa [visit_undefined fresh undefined]
  | case4 reached name rest fresh node found ih =>
    rw [visit_fresh fresh found]
    exact fun a ha => ih (List.mem_cons_of_mem name ha)

/-- What is pending is found if it is defined. -/
theorem mem_visit_of_pending {reached pending : List String} {a : String} (h : a ∈ pending)
    (defined : g.defines a) : a ∈ g.visit reached pending := by
  induction reached, pending using visit.induct g with
  | case1 reached => cases h
  | case2 reached name rest seen ih =>
    rw [visit_seen seen]
    rcases List.mem_cons.mp h with rfl | h
    · exact subset_visit reached rest seen
    · exact ih h
  | case3 reached name rest fresh undefined ih =>
    rw [visit_undefined fresh undefined]
    rcases List.mem_cons.mp h with rfl | h
    · exact absurd defined (not_defines_of_node? undefined)
    · exact ih h
  | case4 reached name rest fresh node found ih =>
    rw [visit_fresh fresh found]
    rcases List.mem_cons.mp h with rfl | h
    · exact subset_visit _ _ List.mem_cons_self
    · exact ih (List.mem_append_right node.references h)

/-- Whatever the names in a list mention stands in it or in another one, if it is defined. -/
def ClosedUpTo (g : Graph) (reached pending : List String) : Prop :=
  ∀ a ∈ reached, ∀ b ∈ g.referencesOf a, g.defines b → b ∈ reached ∨ b ∈ pending

/-- A name that is not needed can be left out of the pending ones. -/
theorem ClosedUpTo.tail {reached rest : List String} {name : String}
    (h : g.ClosedUpTo reached (name :: rest)) (spare : g.defines name → name ∈ reached) :
    g.ClosedUpTo reached rest := by
  intro a ha b hb defined
  rcases h a ha b hb defined with hreached | hpending
  · exact .inl hreached
  · rcases List.mem_cons.mp hpending with rfl | hrest
    · exact .inl (spare defined)
    · exact .inr hrest

/-- A name moves from the pending to the reached ones when what it mentions becomes pending. -/
theorem ClosedUpTo.move {reached rest : List String} {name : String} {node : Node}
    (h : g.ClosedUpTo reached (name :: rest)) (found : g.node? name = some node) :
    g.ClosedUpTo (name :: reached) (node.references ++ rest) := by
  intro a ha b hb defined
  rcases List.mem_cons.mp ha with rfl | ha
  · rw [referencesOf_of_node? found] at hb
    exact .inr (List.mem_append_left rest hb)
  · rcases h a ha b hb defined with hreached | hpending
    · exact .inl (List.mem_cons_of_mem name hreached)
    · rcases List.mem_cons.mp hpending with rfl | hrest
      · exact .inl List.mem_cons_self
      · exact .inr (List.mem_append_right node.references hrest)

/-- What is found is closed under mentions of defined names. -/
theorem visit_closed {reached pending : List String} (h : g.ClosedUpTo reached pending) :
    g.ClosedUpTo (g.visit reached pending) [] := by
  induction reached, pending using visit.induct g with
  | case1 reached => rwa [visit_nil]
  | case2 reached name rest seen ih =>
    rw [visit_seen seen]
    exact ih (h.tail fun _ => seen)
  | case3 reached name rest fresh undefined ih =>
    rw [visit_undefined fresh undefined]
    exact ih (h.tail fun defined => absurd defined (not_defines_of_node? undefined))
  | case4 reached name rest fresh node found ih =>
    rw [visit_fresh fresh found]
    exact ih (h.move found)

/-- A property of what is reached and of what is pending, which mentions pass on, is one of all that
is found. -/
theorem visit_induction {P : String → Prop} {reached pending : List String}
    (hreached : ∀ a ∈ reached, P a) (hpending : ∀ a ∈ pending, g.defines a → P a)
    (mention : ∀ a b, P a → b ∈ g.referencesOf a → g.defines b → P b) :
    ∀ a ∈ g.visit reached pending, P a := by
  induction reached, pending using visit.induct g with
  | case1 reached => rwa [visit_nil]
  | case2 reached name rest seen ih =>
    rw [visit_seen seen]
    exact ih hreached fun a ha => hpending a (List.mem_cons_of_mem name ha)
  | case3 reached name rest fresh undefined ih =>
    rw [visit_undefined fresh undefined]
    exact ih hreached fun a ha => hpending a (List.mem_cons_of_mem name ha)
  | case4 reached name rest fresh node found ih =>
    rw [visit_fresh fresh found]
    have hname : P name := hpending name List.mem_cons_self (defines_iff.mpr ⟨node, found⟩)
    refine ih (fun a ha => ?_) (fun a ha defined => ?_)
    · rcases List.mem_cons.mp ha with rfl | ha
      · exact hname
      · exact hreached a ha
    · rcases List.mem_append.mp ha with ha | ha
      · exact mention name a hname (referencesOf_of_node? found ▸ ha) defined
      · exact hpending a (List.mem_cons_of_mem name ha) defined

/-! ## Paths -/

/-- **The search finds exactly the names at the end of a path.** -/
theorem mem_reachableFrom_iff {a b : String} : b ∈ g.reachableFrom a ↔ g.Path a b := by
  constructor
  · have hempty : ∀ c ∈ ([] : List String), g.Path a c := fun c hc => nomatch hc
    exact visit_induction hempty (fun c => Path.step) (fun c d => Path.snoc) b
  · intro h
    have hclosed : g.ClosedUpTo (g.reachableFrom a) [] := visit_closed fun c hc => nomatch hc
    induction h with
    | step mentioned defined => exact mem_visit_of_pending mentioned defined
    | snoc _ mentioned defined ih =>
      exact (hclosed _ ih _ mentioned defined).resolve_right List.not_mem_nil

/-- A name is indirectly recursive if it does not mention itself and a path from it comes to
another name that mentions it again. -/
theorem isIndirect_iff {name : String} :
    g.isIndirect name ↔ g.defines name ∧ name ∉ g.referencesOf name ∧
      ∃ other, g.Path name other ∧ other ≠ name ∧ name ∈ g.referencesOf other := by
  simp only [isIndirect, Bool.and_eq_true, decide_eq_true_eq, List.any_eq_true,
    mem_reachableFrom_iff, and_assoc]

end GrammarAudit.Graph
