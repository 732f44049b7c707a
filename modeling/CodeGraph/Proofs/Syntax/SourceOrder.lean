import CodeGraph.Proofs.Syntax.Walk
import CodeGraph.Source

/-!
# Visits in source order

In a parsed tree nodes lie within the node above them, and siblings follow one another
(`Node.InOrder`). A walk then goes through the source from the front to the back: of two visits, the
first contains the second or has ended where the second begins (`walk_before`).
-/

namespace CodeGraph

/-! ## Ranges and lines -/

/-- Both ends of the inner node's range lie in the outer node's range. -/
def Node.Encloses (outer inner : Node) : Prop :=
  (outer.start ≤ inner.start ∧ inner.start ≤ outer.stop) ∧
    outer.start ≤ inner.stop ∧ inner.stop ≤ outer.stop

theorem Node.Encloses.trans {a b c : Node} (hab : a.Encloses b) (hbc : b.Encloses c) :
    a.Encloses c := by
  unfold Node.Encloses at *
  omega

theorem Module.lineAt_mono (m : Module) {a b : Nat} (h : a ≤ b) : m.lineAt a ≤ m.lineAt b :=
  Nat.add_le_add_right ((List.take_sublist_take_left h).count_le _) 1

/-- The node ends no earlier than it starts, and its children lie within it. -/
structure Node.Nested (n : Node) : Prop where
  range : n.start ≤ n.stop
  nested : ∀ c ∈ n.children, n.Encloses c

theorem Node.nested_iff (n : Node) :
    n.Nested ↔ n.start ≤ n.stop ∧ ∀ c ∈ n.children, n.Encloses c :=
  ⟨fun h => ⟨h.range, h.nested⟩, fun h => ⟨h.1, h.2⟩⟩

theorem Node.Nested.encloses_self {n : Node} (h : n.Nested) : n.Encloses n := by
  have := h.range
  unfold Node.Encloses
  omega

/-- The children of the node lie within it, one after the other. -/
structure Node.InOrder (n : Node) : Prop where
  range : n.start ≤ n.stop
  nested : ∀ c ∈ n.children, n.Encloses c
  ordered : n.children.Pairwise (fun c d => c.stop ≤ d.start)

theorem Node.inOrder_iff (n : Node) : n.InOrder ↔ n.start ≤ n.stop ∧
    (∀ c ∈ n.children, n.Encloses c) ∧ n.children.Pairwise (fun c d => c.stop ≤ d.start) :=
  ⟨fun h => ⟨h.range, h.nested, h.ordered⟩, fun h => ⟨h.1, h.2.1, h.2.2⟩⟩

theorem Node.InOrder.toNested {n : Node} (h : n.InOrder) : n.Nested :=
  ⟨h.range, h.nested⟩

theorem Node.InOrder.encloses_self {n : Node} (h : n.InOrder) : n.Encloses n :=
  h.toNested.encloses_self

/-- Children start in their order. -/
theorem Node.starts_ordered {n : Node} (h : n.All Node.InOrder) :
    n.children.Pairwise (fun c d => c.start ≤ d.start) := by
  refine h.self.ordered.imp_of_mem ?_
  intro c d hc _ hcd
  exact Nat.le_trans (h.child c hc).self.range hcd

/-! ## Visits -/

namespace Focus

theorem map_node_enter (above : List Step) (parent : Node) (i : Nat) (children : List Node) :
    (enter above parent i children).map (·.node) = children.filter (·.named) := by
  induction children generalizing i with
  | nil => rfl
  | cons c rest ih =>
    rw [enter, List.filter_cons]
    by_cases h : c.named = true
    · rw [if_pos h, if_pos h, List.map_cons, ih]
    · rw [if_neg h, if_neg h, ih]

theorem below_ordered {f : Focus} (h : f.node.InOrder) :
    f.below.Pairwise (fun g g' => g.node.stop ≤ g'.node.start) := by
  have hnodes : (f.below.map (·.node)).Pairwise (fun c d => c.stop ≤ d.start) := by
    rw [below, map_node_enter]
    exact h.ordered.sublist List.filter_sublist
  exact List.pairwise_map.mp hnodes

/-- The second visit stands inside the node of the first one. -/
def Contains (f g : Focus) : Prop :=
  ∃ c ∈ f.below, c.Reaches g

theorem Contains.reaches {f g : Focus} (h : f.Contains g) : f.Reaches g := by
  obtain ⟨c, hc, hreaches⟩ := h
  exact Relation.ReflTransGen.head hc hreaches

theorem encloses_of_reaches {f g : Focus} (hf : f.node.All Node.InOrder) (h : f.Reaches g) :
    f.node.Encloses g.node := by
  induction h with
  | refl => exact hf.self.encloses_self
  | tail hreaches hstep ih =>
    obtain ⟨i, hchild, -, -⟩ := mem_below.mp hstep
    have hnested := (hf.of_reaches hreaches).self.nested
    exact ih.trans (hnested _ (List.mem_of_getElem? hchild))

/-- The first visit contains the second one, or it has ended where the second one begins. -/
def Before (f g : Focus) : Prop :=
  f.Contains g ∨ f.node.stop ≤ g.node.start

end Focus

/-- Opening a node keeps the stack in order: its children take its place. -/
theorem stack_ordered {f : Focus} {rest : List Focus} (hf : f.node.InOrder)
    (h : (f :: rest).Pairwise (fun g g' => g.node.stop ≤ g'.node.start)) :
    (f.below ++ rest).Pairwise (fun g g' => g.node.stop ≤ g'.node.start) := by
  obtain ⟨hfirst, hrest⟩ := List.pairwise_cons.mp h
  refine List.pairwise_append.mpr ⟨Focus.below_ordered hf, hrest, ?_⟩
  intro g hg g' hg'
  obtain ⟨i, hchild, -, -⟩ := Focus.mem_below.mp hg
  have hnested := hf.nested g.node (List.mem_of_getElem? hchild)
  exact Nat.le_trans hnested.2.2 (hfirst g' hg')

theorem visits_before {stack : List Focus} (hall : ∀ f ∈ stack, f.node.All Node.InOrder)
    (hstack : stack.Pairwise (fun f g => f.node.stop ≤ g.node.start)) :
    (visits stack).Pairwise Focus.Before := by
  fun_induction visits stack with
  | case1 => exact List.Pairwise.nil
  | case2 f rest ih =>
    have hf : f.node.All Node.InOrder := hall f List.mem_cons_self
    have hopened : ∀ g ∈ f.below ++ rest, g.node.All Node.InOrder := by
      intro g hg
      rcases List.mem_append.mp hg with hbelow | hrest
      · exact hf.of_reaches (Relation.ReflTransGen.single hbelow)
      · exact hall g (List.mem_cons_of_mem _ hrest)
    refine List.pairwise_cons.mpr ⟨?_, ih hopened (stack_ordered hf.self hstack)⟩
    intro g hg
    obtain ⟨c, hc, hreaches⟩ := (mem_visits _ g).mp hg
    rcases List.mem_append.mp hc with hbelow | hrest
    · exact Or.inl ⟨c, hbelow, hreaches⟩
    · have hafter : f.node.stop ≤ c.node.start := (List.pairwise_cons.mp hstack).1 c hrest
      have hencloses := Focus.encloses_of_reaches (hopened c hc) hreaches
      exact Or.inr (Nat.le_trans hafter hencloses.1.1)

/-- A walk goes through the source from the front to the back. -/
theorem walk_before {root : Node} (h : root.All Node.InOrder) :
    (walk root).Pairwise Focus.Before := by
  refine visits_before ?_ (List.pairwise_singleton _ _)
  intro f hf
  obtain rfl := List.mem_singleton.mp hf
  exact h

end CodeGraph
