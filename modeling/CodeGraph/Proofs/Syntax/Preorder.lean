import CodeGraph.Proofs.Syntax.Walk
import Mathlib.Data.List.Nodup

/-!
# Walks in pre-order

A place in a tree is the way down to it: the position of the child entered at each node, from the
root on. The places that named children lead to can be listed by recursion over the tree, a node
before what is below it and its children from left to right (`Node.preorder`). No place is listed
twice (`Node.nodup_preorder`).

A walk has no recursion, only a stack. What is on the stack stands for the pre-orders of its nodes,
one after the other (`place_visits`), so a walk visits the places in pre-order (`place_walk`). The
steps above a visit are those from the root to its place (`ancestors_of_mem_walk`), and handlers see
the visits of their kinds in the same order (`Handlers.walk_eq_foldl`).
-/

namespace CodeGraph

/-! ## Places -/

namespace Node

/-- The node at a place. -/
def at? : Node → List Nat → Option Node
  | n, [] => some n
  | n, i :: rest => n.children[i]?.bind (fun c => c.at? rest)

/-- The nodes passed on the way to a place, the root first. The node at the place is not one of
them. -/
def passed : Node → List Nat → List Node
  | _, [] => []
  | n, i :: rest => n :: n.children[i]?.elim [] (fun c => c.passed rest)

/-- Named children lead from the node to the place. -/
inductive Leads : Node → List Nat → Prop
  | here (n : Node) : Leads n []
  | down {n c : Node} {i : Nat} {rest : List Nat} (child : n.children[i]? = some c)
      (named : c.named) (below : Leads c rest) : Leads n (i :: rest)

theorem at?_cons {n c : Node} {i : Nat} (h : n.children[i]? = some c) (rest : List Nat) :
    n.at? (i :: rest) = c.at? rest := by
  rw [at?, h, Option.bind_some]

theorem at?_append {n m : Node} {place : List Nat} (h : n.at? place = some m) (rest : List Nat) :
    n.at? (place ++ rest) = m.at? rest := by
  induction place generalizing n with
  | nil =>
    obtain rfl := Option.some.inj h
    rfl
  | cons i place ih =>
    obtain ⟨c, hc, hbelow⟩ := Option.bind_eq_some_iff.mp h
    rw [List.cons_append, at?_cons hc, ih hbelow]

/-- One step further, the node that was reached is passed too. -/
theorem passed_concat {n m : Node} {place : List Nat} (h : n.at? place = some m) (i : Nat) :
    n.passed (place ++ [i]) = n.passed place ++ [m] := by
  induction place generalizing n with
  | nil =>
    obtain rfl := Option.some.inj h
    cases hc : n.children[i]? <;> simp [passed, hc]
  | cons j place ih =>
    obtain ⟨c, hc, hbelow⟩ := Option.bind_eq_some_iff.mp h
    simp only [List.cons_append, passed, hc, Option.elim_some, ih hbelow]

/-! ## The recursive pre-order -/

mutual

/-- The places that named children lead to: the node itself, then those below it. -/
def preorder : Node → List (List Nat)
  | ⟨_, _, _, _, _, children⟩ => [] :: preorderFrom 0 children

/-- The places below children that start at a position, from left to right. -/
def preorderFrom : Nat → List Node → List (List Nat)
  | _, [] => []
  | i, c :: rest =>
    (if c.named then c.preorder.map (i :: ·) else []) ++ preorderFrom (i + 1) rest

end

theorem preorder_eq (n : Node) : n.preorder = [] :: preorderFrom 0 n.children := by
  cases n
  rw [preorder]

theorem mem_preorderFrom {i : Nat} {children : List Node} {place : List Nat} :
    place ∈ preorderFrom i children ↔
      ∃ j c rest, children[j]? = some c ∧ c.named ∧ rest ∈ c.preorder ∧
        place = (i + j) :: rest := by
  induction children generalizing i with
  | nil => simp [preorderFrom]
  | cons c children ih =>
    rw [preorderFrom, List.mem_append, ih]
    constructor
    · rintro (h | ⟨j, d, rest, hd, hnamed, hrest, rfl⟩)
      · split at h
        · rename_i hnamed
          obtain ⟨rest, hrest, rfl⟩ := List.mem_map.mp h
          exact ⟨0, c, rest, rfl, hnamed, hrest, rfl⟩
        · exact absurd h List.not_mem_nil
      · exact ⟨j + 1, d, rest, hd, hnamed, hrest, by rw [Nat.add_assoc, Nat.add_comm 1]⟩
    · rintro ⟨_ | j, d, rest, hd, hnamed, hrest, rfl⟩
      · obtain rfl := Option.some.inj hd
        rw [if_pos hnamed]
        exact Or.inl (List.mem_map_of_mem hrest)
      · exact Or.inr ⟨j, d, rest, hd, hnamed, hrest, by rw [Nat.add_assoc, Nat.add_comm 1]⟩

/-- The pre-order has the places that named children lead to, and no others. -/
theorem mem_preorder {n : Node} {place : List Nat} : place ∈ n.preorder ↔ n.Leads place := by
  induction place generalizing n with
  | nil =>
    rw [preorder_eq]
    exact iff_of_true List.mem_cons_self (.here n)
  | cons i place ih =>
    rw [preorder_eq, List.mem_cons, mem_preorderFrom]
    constructor
    · rintro (h | ⟨j, c, rest, hc, hnamed, hrest, h⟩)
      · cases h
      · obtain ⟨rfl, rfl⟩ := List.cons.inj h
        rw [Nat.zero_add]
        exact .down hc hnamed (ih.mp hrest)
    · intro h
      cases h with
      | down hc hnamed hbelow =>
        exact Or.inr ⟨i, _, place, hc, hnamed, ih.mpr hbelow, by rw [Nat.zero_add]⟩

mutual

/-- No place is listed twice. -/
theorem nodup_preorder : ∀ n : Node, n.preorder.Nodup
  | ⟨_, _, _, _, _, children⟩ => by
    rw [preorder, List.nodup_cons]
    refine ⟨fun h => ?_, nodup_preorderFrom 0 children⟩
    obtain ⟨_, _, _, -, -, -, hplace⟩ := mem_preorderFrom.mp h
    cases hplace

theorem nodup_preorderFrom : ∀ (i : Nat) (children : List Node), (preorderFrom i children).Nodup
  | _, [] => List.nodup_nil
  | i, c :: rest => by
    rw [preorderFrom]
    refine List.nodup_append.mpr ⟨?_, nodup_preorderFrom (i + 1) rest, ?_⟩
    · split
      · exact (nodup_preorder c).map List.cons_injective
      · exact List.nodup_nil
    · -- the first entry tells which child a place is below
      intro place hplace other hother heq
      obtain ⟨j, _, below, -, -, -, rfl⟩ := mem_preorderFrom.mp hother
      split at hplace
      · obtain ⟨below', -, rfl⟩ := List.mem_map.mp hplace
        have hfirst := (List.cons.inj heq).1
        omega
      · exact List.not_mem_nil hplace

end

end Node

/-! ## Places of visits -/

namespace Focus

/-- The place of a visit: its steps, from the root on. -/
def place (f : Focus) : List Nat :=
  (f.above.map (·.index)).reverse

theorem place_below {f g : Focus} {i : Nat} (h : g.above = ⟨f.node, i⟩ :: f.above) :
    g.place = f.place ++ [i] := by
  rw [place, h, List.map_cons, List.reverse_cons]
  rfl

/-- The places in a visited node. -/
def preorder (f : Focus) : List (List Nat) :=
  f.node.preorder.map (f.place ++ ·)

theorem preorder_enter (f : Focus) (i : Nat) (children : List Node) :
    (enter f.above f.node i children).flatMap preorder =
      (Node.preorderFrom i children).map (f.place ++ ·) := by
  induction children generalizing i with
  | nil => rfl
  | cons c rest ih =>
    rw [enter, Node.preorderFrom]
    split
    · have hplace : place ⟨c, ⟨f.node, i⟩ :: f.above⟩ = f.place ++ [i] := place_below rfl
      rw [List.flatMap_cons, ih, List.map_append, List.map_map, preorder, hplace]
      congr 1
      refine List.map_congr_left fun below _ => ?_
      exact List.append_assoc f.place [i] below
    · exact ih (i + 1)

/-- The pre-order of a node is its own place, then the pre-orders of its named children. -/
theorem preorder_eq_cons (f : Focus) : f.preorder = f.place :: f.below.flatMap preorder := by
  rw [preorder, Node.preorder_eq, List.map_cons, List.append_nil, below, preorder_enter]

theorem preorder_ofRoot (root : Node) : (ofRoot root).preorder = root.preorder :=
  List.map_id _

end Focus

/-- What is on the stack stands for the pre-orders of its nodes, one after the other. -/
theorem place_visits (stack : List Focus) :
    (visits stack).map Focus.place = stack.flatMap Focus.preorder := by
  fun_induction visits stack with
  | case1 => rfl
  | case2 f rest ih =>
    rw [List.map_cons, ih, List.flatMap_append, List.flatMap_cons, Focus.preorder_eq_cons,
      List.cons_append]

/-- A walk visits the places of a tree in pre-order. -/
theorem place_walk (root : Node) : (walk root).map Focus.place = root.preorder := by
  rw [walk, place_visits, List.flatMap_singleton, Focus.preorder_ofRoot]

/-- The visit's node and its ancestors are those at its place. -/
theorem ancestors_of_mem_walk {root : Node} {f : Focus} (h : f ∈ walk root) :
    root.at? f.place = some f.node ∧ f.ancestors = (root.passed f.place).reverse := by
  rw [mem_walk_iff] at h
  induction h with
  | refl => exact ⟨rfl, rfl⟩
  | @tail f g _ hstep ih =>
    obtain ⟨hnode, hancestors⟩ := ih
    obtain ⟨i, hchild, -, habove⟩ := Focus.mem_below.mp hstep
    rw [Focus.place_below habove]
    constructor
    · rw [Node.at?_append hnode, Node.at?_cons hchild, Node.at?]
    · rw [Node.passed_concat hnode, List.reverse_append, ← hancestors, Focus.ancestors, habove]
      rfl

/-! ## Rounds and handlers -/

/-- Every round of the loop visits another node, so there are no more rounds than nodes. -/
theorem length_visits_le (stack : List Focus) : (visits stack).length ≤ Focus.countAll stack := by
  fun_induction visits stack with
  | case1 => exact Nat.le_refl 0
  | case2 f rest ih =>
    rw [List.length_cons]
    exact Nat.lt_of_le_of_lt ih (Focus.countAll_opened_lt f rest)

theorem length_walk_le (root : Node) : (walk root).length ≤ root.count :=
  length_visits_le [Focus.ofRoot root]

namespace Handlers

variable {σ : Type}

/-- Is there a handler for the visited node's kind? -/
def handles (handlers : Handlers σ) (f : Focus) : Bool :=
  handlers.contains f.kind

theorem visit_of_not_handles {handlers : Handlers σ} {f : Focus}
    (h : handlers.handles f = false) (state : σ) : handlers.visit f state = state := by
  have hnone : handlers.get? f.kind = none := by simpa [handles, Table.contains] using h
  rw [visit, hnone]

theorem run_eq_foldl (handlers : Handlers σ) (stack : List Focus) (state : σ) :
    handlers.run stack state =
      ((visits stack).filter handlers.handles).foldl (fun s f => handlers.visit f s) state := by
  fun_induction Handlers.run handlers stack state with
  | case1 => rw [visits]; rfl
  | case2 state f rest ih =>
    rw [ih, visits, List.filter_cons]
    cases h : handlers.handles f with
    | true => rfl
    | false => rw [visit_of_not_handles h]; rfl

/-- Handlers work on the visits of their kinds, in the order of the walk. -/
theorem walk_eq_foldl (handlers : Handlers σ) (root : Node) (state : σ) :
    handlers.walk root state =
      ((CodeGraph.walk root).filter handlers.handles).foldl
        (fun s f => handlers.visit f s) state :=
  run_eq_foldl handlers _ state

end Handlers

end CodeGraph
