import CodeGraph.Syntax.Walk
import Mathlib.Data.List.Basic
import Mathlib.Logic.Relation

/-!
# What a walk visits

A walk visits the root and, with every visit, the named children of the visited node
(`mem_walk_iff`). So the way up from a visit consists of visits (`mem_walk_of_above`), and whatever
holds everywhere in the tree holds of every visited node (`Node.All.of_mem_walk`).
-/

namespace CodeGraph

/-! ## Everywhere in a tree -/

/-- The property holds of a node and of all nodes below it. -/
inductive Node.All (P : Node → Prop) : Node → Prop
  | intro (n : Node) (self : P n) (children : ∀ c ∈ n.children, Node.All P c) : Node.All P n

namespace Node.All

variable {P : Node → Prop} {n : Node}

theorem self (h : n.All P) : P n := by
  cases h with
  | intro _ self _ => exact self

theorem child (h : n.All P) : ∀ c ∈ n.children, c.All P := by
  cases h with
  | intro _ _ children => exact children

theorem imp {Q : Node → Prop} (h : n.All P) (hpq : ∀ n, P n → Q n) : n.All Q := by
  induction h with
  | intro n self _ ih => exact .intro n (hpq n self) ih

end Node.All

theorem Node.all_mk (P : Node → Prop) (kind : String) (named : Bool) (field : Option String)
    (start stop : Nat) (children : List Node) :
    (⟨kind, named, field, start, stop, children⟩ : Node).All P ↔
      P ⟨kind, named, field, start, stop, children⟩ ∧ ∀ c ∈ children, c.All P :=
  ⟨fun h => ⟨h.self, h.child⟩, fun h => .intro _ h.1 h.2⟩

/-! ## Visits -/

namespace Focus

theorem mem_enter {above : List Step} {parent : Node} {i : Nat} {children : List Node}
    {g : Focus} :
    g ∈ enter above parent i children ↔
      ∃ j, children[j]? = some g.node ∧ g.node.named ∧ g.above = ⟨parent, i + j⟩ :: above := by
  induction children generalizing i with
  | nil => simp [enter]
  | cons c rest ih =>
    have hrest : g ∈ enter above parent (i + 1) rest ↔
        ∃ j, (c :: rest)[j + 1]? = some g.node ∧ g.node.named ∧
          g.above = ⟨parent, i + (j + 1)⟩ :: above := by
      rw [ih]
      simp only [List.getElem?_cons_succ, Nat.add_assoc, Nat.add_comm 1]
    have hsplit : (∃ j, (c :: rest)[j]? = some g.node ∧ g.node.named ∧
        g.above = ⟨parent, i + j⟩ :: above) ↔
          (c = g.node ∧ g.node.named ∧ g.above = ⟨parent, i⟩ :: above) ∨
            g ∈ enter above parent (i + 1) rest := by
      rw [hrest]
      constructor
      · rintro ⟨_ | j, hj⟩
        · exact Or.inl (by simpa using hj)
        · exact Or.inr ⟨j, hj⟩
      · rintro (h | ⟨j, hj⟩)
        · exact ⟨0, by simpa using h⟩
        · exact ⟨j + 1, hj⟩
    rw [hsplit, enter]
    obtain ⟨node, above'⟩ := g
    by_cases hnamed : c.named = true
    · rw [if_pos hnamed, List.mem_cons, Focus.mk.injEq]
      refine or_congr_left ⟨?_, ?_⟩
      · rintro ⟨rfl, rfl⟩
        exact ⟨rfl, hnamed, rfl⟩
      · rintro ⟨rfl, -, habove⟩
        exact ⟨rfl, habove⟩
    · rw [if_neg hnamed]
      refine ⟨Or.inr, ?_⟩
      rintro (⟨rfl, h, -⟩ | h)
      · exact absurd h hnamed
      · exact h

/-- The visits below a node are its named children, each with the step that enters it. -/
theorem mem_below {f g : Focus} :
    g ∈ f.below ↔ ∃ i, f.node.children[i]? = some g.node ∧ g.node.named ∧
      g.above = ⟨f.node, i⟩ :: f.above := by
  rw [below, mem_enter]
  simp only [Nat.zero_add]

/-- The second visit can be reached from the first by stepping down. -/
def Reaches : Focus → Focus → Prop :=
  Relation.ReflTransGen (fun f g => g ∈ f.below)

end Focus

theorem mem_visits (stack : List Focus) (f : Focus) :
    f ∈ visits stack ↔ ∃ g ∈ stack, g.Reaches f := by
  fun_induction visits stack with
  | case1 => simp
  | case2 g rest ih =>
    rw [List.mem_cons, ih]
    have hhead : g.Reaches f ↔ f = g ∨ ∃ c ∈ g.below, c.Reaches f :=
      Relation.ReflTransGen.cases_head_iff.trans (or_congr_left eq_comm)
    simp only [List.mem_append, List.exists_mem_cons_iff, hhead, or_and_right, exists_or, or_assoc]

/-- A walk visits what can be reached from the root. -/
theorem mem_walk_iff (root : Node) (f : Focus) :
    f ∈ walk root ↔ (Focus.ofRoot root).Reaches f := by
  rw [walk, mem_visits]
  simp

theorem ofRoot_mem_walk (root : Node) : Focus.ofRoot root ∈ walk root :=
  (mem_walk_iff root _).mpr .refl

/-- With a node, its named children are visited. -/
theorem mem_walk_of_child {root c : Node} {f : Focus} {i : Nat} (hf : f ∈ walk root)
    (hc : f.node.children[i]? = some c) (hnamed : c.named) :
    ⟨c, ⟨f.node, i⟩ :: f.above⟩ ∈ walk root := by
  have hbelow : ⟨c, ⟨f.node, i⟩ :: f.above⟩ ∈ f.below := Focus.mem_below.mpr ⟨i, hc, hnamed, rfl⟩
  exact (mem_walk_iff root _).mpr (((mem_walk_iff root f).mp hf).tail hbelow)

/-- The node above a visit is visited, and the visit is one of its named children. -/
theorem mem_walk_of_above {root n : Node} {s : Step} {rest : List Step}
    (h : ⟨n, s :: rest⟩ ∈ walk root) :
    ⟨s.parent, rest⟩ ∈ walk root ∧ s.parent.children[s.index]? = some n ∧ n.named := by
  rw [mem_walk_iff] at h
  rcases Relation.ReflTransGen.cases_tail h with hroot | ⟨f, hf, hbelow⟩
  · exact absurd (congrArg Focus.above hroot) (by simp [Focus.ofRoot])
  · obtain ⟨i, hchild, hnamed, habove⟩ := Focus.mem_below.mp hbelow
    obtain ⟨rfl, rfl⟩ := List.cons.inj habove
    exact ⟨(mem_walk_iff root _).mpr hf, hchild, hnamed⟩

theorem Node.All.of_reaches {P : Node → Prop} {f g : Focus} (hf : f.node.All P)
    (h : f.Reaches g) : g.node.All P := by
  induction h with
  | refl => exact hf
  | tail _ hstep ih =>
    obtain ⟨i, hchild, -, -⟩ := Focus.mem_below.mp hstep
    exact ih.child _ (List.mem_of_getElem? hchild)

/-- What holds everywhere in a tree holds everywhere below a visit. -/
theorem Node.All.of_mem_walk {P : Node → Prop} {root : Node} (hroot : root.All P) {f : Focus}
    (h : f ∈ walk root) : f.node.All P := by
  have hfrom : (Focus.ofRoot root).node.All P := hroot
  exact hfrom.of_reaches ((mem_walk_iff root f).mp h)

end CodeGraph
