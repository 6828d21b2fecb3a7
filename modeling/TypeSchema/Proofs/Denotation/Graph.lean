/-!
# Following paths through a graph

A graph whose nodes have labels and children under selectors, and where a node may also merely
stand for another one. A path is followed through the children, and whatever stands for something
else is replaced by it on the way, as often as needed. Two graphs show the same labels along the
same paths when their nodes can be matched, although one of them may stand for things through more
intermediate nodes than the other.
-/

namespace TypeSchema

structure Graph (Node Label Selector : Type) where
  next : Node → Option Node
  label : Node → Option Label
  child : Node → Selector → Option Node

namespace Graph

variable {Node Node' Label Selector : Type}

/-- A node that stands for another one has no label and no children of its own. -/
structure Proper (graph : Graph Node Label Selector) : Prop where
  next_of_label : ∀ {x label}, graph.label x = some label → graph.next x = none
  next_of_child : ∀ {x selector y}, graph.child x selector = some y → graph.next x = none

/-- Following the path from the first node can end at the second. -/
inductive Leads (graph : Graph Node Label Selector) : Node → List Selector → Node → Prop
  | stop {x : Node} : graph.Leads x [] x
  | next {x y z : Node} {path : List Selector} (head : graph.next x = some y)
      (tail : graph.Leads y path z) : graph.Leads x path z
  | child {x y z : Node} {selector : Selector} {path : List Selector}
      (head : graph.child x selector = some y) (tail : graph.Leads y path z) :
      graph.Leads x (selector :: path) z

/-- The label that following the path arrives at. -/
def Shows (graph : Graph Node Label Selector) (x : Node) (path : List Selector) (label : Label) :
    Prop :=
  ∃ z, graph.Leads x path z ∧ graph.label z = some label

/-- The first node stands for the second, through at least one step. -/
def StandsFor (graph : Graph Node Label Selector) (x z : Node) : Prop :=
  ∃ y, graph.next x = some y ∧ graph.Leads y [] z

variable {graph : Graph Node Label Selector} {x y z : Node} {path rest : List Selector}
  {label : Label}

theorem Leads.append (first : graph.Leads x path y) (second : graph.Leads y rest z) :
    graph.Leads x (path ++ rest) z := by
  induction first with
  | stop => exact second
  | next head _ ih => exact .next head (ih second)
  | child head _ ih => exact .child head (ih second)

theorem Leads.shows (leads : graph.Leads x [] y) (shows : graph.Shows y path label) :
    graph.Shows x path label := by
  obtain ⟨z, hz, hlabel⟩ := shows
  exact ⟨z, leads.append hz, hlabel⟩

theorem StandsFor.leads (h : graph.StandsFor x z) : graph.Leads x [] z := by
  obtain ⟨y, hnext, hleads⟩ := h
  exact .next hnext hleads

theorem standsFor_or_eq (h : graph.Leads x [] z) : graph.StandsFor x z ∨ x = z := by
  cases h with
  | stop => exact .inr rfl
  | next head tail => exact .inl ⟨_, head, tail⟩

theorem eq_of_leads (hnext : graph.next x = none) (h : graph.Leads x [] z) : x = z := by
  obtain ⟨y, hy, -⟩ | heq := standsFor_or_eq h
  · simp [hnext] at hy
  · exact heq

/-- A path arrives at one node at most that stands for itself. -/
theorem Leads.unique (proper : graph.Proper) (hy : graph.Leads x path y)
    (hynext : graph.next y = none) (hz : graph.Leads x path z) (hznext : graph.next z = none) :
    y = z := by
  induction hy with
  | stop => exact eq_of_leads hynext hz
  | next head _ ih =>
      cases hz with
      | stop => simp [hznext] at head
      | next head' tail' =>
          obtain rfl := Option.some.inj (head.symm.trans head')
          exact ih hynext tail'
      | child head' _ => simp [proper.next_of_child head'] at head
  | child head _ ih =>
      cases hz with
      | next head' _ => simp [proper.next_of_child head] at head'
      | child head' tail' =>
          obtain rfl := Option.some.inj (head.symm.trans head')
          exact ih hynext tail'

/-! ### Matching two graphs -/

/-- How a relation matches two nodes: the first stands for something and the second does too, maybe
through more steps, or the first is a node itself and the second is or stands for one like it. -/
inductive Matches (graph : Graph Node Label Selector) (graph' : Graph Node' Label Selector)
    (R : Node → Node' → Prop) (x : Node) (x' : Node') : Prop
  | reference {y : Node} {y' : Node'} (head : graph.next x = some y)
      (head' : graph'.StandsFor x' y') (related : R y y')
  | node {y' : Node'} {label : Label} (leads : graph'.Leads x' [] y')
      (here : graph.label x = some label) (there : graph'.label y' = some label)
      (same : ∀ selector, (graph.child x selector).isSome = (graph'.child y' selector).isSome)
      (children : ∀ selector z z', graph.child x selector = some z →
        graph'.child y' selector = some z' → R z z')

variable {graph' : Graph Node' Label Selector} {R : Node → Node' → Prop} {x' : Node'}

theorem shows_of_matches (proper : graph.Proper)
    (hR : ∀ x x', R x x' → Matches graph graph' R x x') (hmatches : Matches graph graph' R x x')
    (hshows : graph.Shows x path label) : graph'.Shows x' path label := by
  obtain ⟨z, hleads, hlabel⟩ := hshows
  induction hleads generalizing x' with
  | stop =>
      cases hmatches with
      | reference head _ _ => simp [proper.next_of_label hlabel] at head
      | node leads here there _ _ =>
          obtain rfl := Option.some.inj (here.symm.trans hlabel)
          exact leads.shows ⟨_, .stop, there⟩
  | next head _ ih =>
      cases hmatches with
      | reference head' standsFor related =>
          obtain rfl := Option.some.inj (head.symm.trans head')
          exact standsFor.leads.shows (ih (hR _ _ related) hlabel)
      | node _ here _ _ _ => simp [proper.next_of_label here] at head
  | @child x y z selector path head _ ih =>
      cases hmatches with
      | reference head' _ _ => simp [proper.next_of_child head] at head'
      | @node y' _ leads _ _ same children =>
          have hsome : (graph'.child y' selector).isSome := by
            rw [← same selector, head]
            rfl
          obtain ⟨z', hz'⟩ := Option.isSome_iff_exists.mp hsome
          obtain ⟨w, hw, hwlabel⟩ := ih (hR _ _ (children _ _ _ head hz')) hlabel
          exact leads.shows ⟨w, .child hz' hw, hwlabel⟩

/-- Along the second graph the induction is on the path through it, so the first node stays where
it is until everything that its counterpart stands for has been passed. -/
theorem leads_of_matches {z' : Node'} (proper' : graph'.Proper)
    (hR : ∀ x x', R x x' → Matches graph graph' R x x') (hmatches : Matches graph graph' R x x')
    (hleads : graph'.Leads x' path z') (hend : graph'.next z' = none) :
    ∃ z label, graph.Leads x path z ∧ graph.label z = some label ∧
      graph'.label z' = some label := by
  induction hleads generalizing x with
  | stop =>
      cases hmatches with
      | reference _ standsFor _ =>
          obtain ⟨y', hy', -⟩ := standsFor
          simp [hend] at hy'
      | node leads here there _ _ =>
          obtain rfl := eq_of_leads hend leads
          exact ⟨_, _, .stop, here, there⟩
  | @next x' y' _ _ head _ ih =>
      cases hmatches with
      | reference step standsFor related =>
          obtain ⟨w', hw', hrest⟩ := standsFor
          obtain rfl := Option.some.inj (head.symm.trans hw')
          obtain hlater | rfl := standsFor_or_eq hrest
          · exact ih (.reference step hlater related) hend
          · obtain ⟨w, label, hw, hlabel⟩ := ih (hR _ _ related) hend
            exact ⟨w, label, .next step hw, hlabel⟩
      | node leads here there same children =>
          obtain ⟨w', hw', hrest⟩ | rfl := standsFor_or_eq leads
          · obtain rfl := Option.some.inj (head.symm.trans hw')
            exact ih (.node hrest here there same children) hend
          · simp [proper'.next_of_label there] at head
  | @child x' y' _ selector _ head _ ih =>
      cases hmatches with
      | reference _ standsFor _ =>
          obtain ⟨w', hw', -⟩ := standsFor
          simp [proper'.next_of_child head] at hw'
      | node leads _ _ same children =>
          obtain rfl := eq_of_leads (proper'.next_of_child head) leads
          have hsome : (graph.child x selector).isSome := by
            rw [same selector, head]
            rfl
          obtain ⟨y, hy⟩ := Option.isSome_iff_exists.mp hsome
          obtain ⟨w, label, hw, hlabel⟩ := ih (hR _ _ (children _ _ _ hy head)) hend
          exact ⟨w, label, .child hy hw, hlabel⟩

theorem shows_of_matches_symm (proper' : graph'.Proper)
    (hR : ∀ x x', R x x' → Matches graph graph' R x x') (hmatches : Matches graph graph' R x x')
    (hshows : graph'.Shows x' path label) : graph.Shows x path label := by
  obtain ⟨z', hleads, hlabel'⟩ := hshows
  obtain ⟨z, found, hz, hlabel, hfound⟩ :=
    leads_of_matches proper' hR hmatches hleads (proper'.next_of_label hlabel')
  obtain rfl := Option.some.inj (hfound.symm.trans hlabel')
  exact ⟨z, hz, hlabel⟩

/-- **Matched nodes show the same.** -/
theorem shows_iff_of_matches (proper : graph.Proper) (proper' : graph'.Proper)
    (hR : ∀ x x', R x x' → Matches graph graph' R x x') (h : R x x') :
    graph.Shows x path label ↔ graph'.Shows x' path label :=
  ⟨shows_of_matches proper hR (hR _ _ h), shows_of_matches_symm proper' hR (hR _ _ h)⟩

end Graph

end TypeSchema
