import CodeGraph.Syntax.Node
import CodeGraph.Table

/-!
# Walking a tree

Named nodes are visited parent first, then its named children from left to right. Each visit knows
the way up: the ancestors, nearest first, and which child was entered at each of them. Two nodes
are the same when they stand at the same place, not when they look alike.

A walk can be given handlers, each for the nodes of one kind; they work on a state while the walk
goes on.
-/

namespace CodeGraph

/-- A step down: the node left and the position of the child entered. -/
structure Step where
  parent : Node
  index : Nat

/-- A node together with the way to it, last step first. -/
structure Focus where
  node : Node
  above : List Step

mutual

/-- The number of nodes in a tree. -/
def Node.count : Node → Nat
  | ⟨_, _, _, _, _, children⟩ => 1 + Node.countAll children

/-- The number of nodes in a list of trees. -/
def Node.countAll : List Node → Nat
  | [] => 0
  | n :: rest => n.count + Node.countAll rest

end

namespace Step

/-- Was the child entered the one under this field? -/
def entersField (s : Step) (name : String) : Bool :=
  s.parent.fieldIndex? name == some s.index

end Step

namespace Focus

/-- The root of a tree. -/
def ofRoot (root : Node) : Focus :=
  ⟨root, []⟩

/-- The kind of the node. -/
def kind (f : Focus) : String :=
  f.node.kind

/-- The ancestors, nearest first. -/
def ancestors (f : Focus) : List Node :=
  f.above.map (·.parent)

/-- The parent with the way to it. -/
def parent? (f : Focus) : Option Focus :=
  match f.above with
  | [] => none
  | s :: rest => some ⟨s.parent, rest⟩

/-- The parent's kind. -/
def parentKind? (f : Focus) : Option String :=
  f.above.head?.map (·.parent.kind)

/-- Is the node its parent's child under this field? -/
def isField (f : Focus) (name : String) : Bool :=
  match f.above with
  | [] => false
  | s :: _ => s.entersField name

/-- The named ones among children that start at a position. -/
def enter (above : List Step) (parent : Node) : Nat → List Node → List Focus
  | _, [] => []
  | i, c :: rest =>
    if c.named then ⟨c, ⟨parent, i⟩ :: above⟩ :: enter above parent (i + 1) rest
    else enter above parent (i + 1) rest

/-- The named children. -/
def below (f : Focus) : List Focus :=
  enter f.above f.node 0 f.node.children

/-- The number of nodes under several visits. -/
def countAll : List Focus → Nat
  | [] => 0
  | f :: fs => f.node.count + countAll fs

theorem countAll_cons (f : Focus) (fs : List Focus) :
    countAll (f :: fs) = f.node.count + countAll fs := rfl

theorem countAll_append (fs gs : List Focus) :
    countAll (fs ++ gs) = countAll fs + countAll gs := by
  induction fs with
  | nil => simp [countAll]
  | cons f fs ih => rw [List.cons_append, countAll_cons, countAll_cons, ih, Nat.add_assoc]

theorem countAll_enter_le (above : List Step) (parent : Node) (i : Nat) (children : List Node) :
    countAll (enter above parent i children) ≤ Node.countAll children := by
  induction children generalizing i with
  | nil => simp [enter, countAll]
  | cons c rest ih =>
    have := ih (i + 1)
    unfold enter
    split
    · rw [countAll_cons, Node.countAll]
      exact Nat.add_le_add_left this _
    · rw [Node.countAll]
      exact Nat.le_trans this (Nat.le_add_left _ _)

theorem countAll_below_lt (f : Focus) : countAll f.below < f.node.count := by
  have h := countAll_enter_le f.above f.node 0 f.node.children
  have hc : f.node.count = 1 + Node.countAll f.node.children := by
    cases hn : f.node
    simp [Node.count]
  unfold below
  omega

/-- With its named children in the place of its top, a stack has fewer nodes to visit. -/
theorem countAll_opened_lt (f : Focus) (rest : List Focus) :
    countAll (f.below ++ rest) < countAll (f :: rest) := by
  have := countAll_below_lt f
  rw [countAll_append, countAll_cons]
  omega

end Focus

/-- Visit what is on the stack: take the top, then put its named children in its place. -/
def visits (stack : List Focus) : List Focus :=
  match stack with
  | [] => []
  | f :: rest => f :: visits (f.below ++ rest)
termination_by Focus.countAll stack
decreasing_by exact Focus.countAll_opened_lt f rest

/-- The visits of a tree, in order. -/
def walk (root : Node) : List Focus :=
  visits [Focus.ofRoot root]

/-! ## Handlers -/

/-- What is done at the nodes of each kind: given a visit, a state is changed. -/
abbrev Handlers (σ : Type) := Table String (Focus → σ → σ)

namespace Handlers

variable {σ : Type}

/-- Let the handler of the visited node's kind work, if there is one. -/
def visit (handlers : Handlers σ) (f : Focus) (state : σ) : σ :=
  match handlers.get? f.kind with
  | some handler => handler f state
  | none => state

/-- Visit what is on the stack: take the top and let its handler work, then put its named children
in its place. -/
def run (handlers : Handlers σ) (stack : List Focus) (state : σ) : σ :=
  match stack with
  | [] => state
  | f :: rest => handlers.run (f.below ++ rest) (handlers.visit f state)
termination_by Focus.countAll stack
decreasing_by exact Focus.countAll_opened_lt f rest

/-- Walk a tree and let the handlers work. -/
def walk (handlers : Handlers σ) (root : Node) (state : σ) : σ :=
  handlers.run [Focus.ofRoot root] state

end Handlers

/-- The visits of the nodes of the given kinds: the handler of each kind keeps them, the last one
in front. -/
def walkKinds (root : Node) (kinds : List String) : List Focus :=
  let handlers : Handlers (List Focus) := kinds.map (fun kind => (kind, List.cons))
  (handlers.walk root []).reverse

end CodeGraph
