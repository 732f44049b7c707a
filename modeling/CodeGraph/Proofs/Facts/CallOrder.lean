import CodeGraph.Proofs.Facts.Callers
import CodeGraph.Proofs.Syntax.Preorder

/-!
# Calls in source order

A walk hands each node of a handled kind to its handler, in the pre-order of the tree and with the
way up to the root. Where nodes lie within the node above them and siblings follow one another, this
is the order of the source: no visit starts before an earlier one (`walk_starts_ordered`), and no
call is on a line before that of an earlier call (`Module.calls_lines_ordered`).
-/

namespace CodeGraph

/-- Whoever is visited before a visit starts no later. -/
theorem Focus.Before.start_le {f g : Focus} (hf : f.node.All Node.InOrder) (h : f.Before g) :
    f.node.start ≤ g.node.start := by
  rcases h with hcontains | hafter
  · exact (Focus.encloses_of_reaches hf hcontains.reaches).1.1
  · exact Nat.le_trans hf.self.range hafter

theorem walk_starts_ordered {root : Node} (h : root.All Node.InOrder) :
    (walk root).Pairwise (fun f g => f.node.start ≤ g.node.start) := by
  refine (walk_before h).imp_of_mem ?_
  intro f g hf _ hbefore
  exact hbefore.start_le (h.of_mem_walk hf)

/-- The lines of the calls of a module never go back. -/
theorem Module.calls_lines_ordered {m : Module} (h : m.root.All Node.InOrder) (limit : Int) :
    (m.calls limit).Pairwise (fun c d => c.line ≤ d.line) := by
  refine (walk_starts_ordered h).filterMap _ ?_
  intro f g hstart c hc d hd
  obtain ⟨-, hline, -⟩ := Calls.ofVisit_eq_some hc
  obtain ⟨-, hline', -⟩ := Calls.ofVisit_eq_some hd
  rw [hline, hline']
  exact Int.ofNat_le.mpr (m.lineAt_mono hstart)

/-- **A walk is the pre-order of the tree.** Whatever the handlers are, they are called on the
visits of their kinds and on nothing else, and the walk ends after at most one round for each node.
The visits are the places that named children lead to, each once and in the recursive pre-order. A
visit has the node at its place, and its ancestors are the nodes passed on the way there, the
nearest first. In a tree whose nodes follow the source, visits and calls do so too. -/
theorem handlers_called_in_preorder (root : Node) :
    (∀ (σ : Type) (handlers : Handlers σ) (state : σ), handlers.walk root state =
      ((walk root).filter handlers.handles).foldl (fun s f => handlers.visit f s) state) ∧
    (walk root).length ≤ root.count ∧
    (walk root).map Focus.place = root.preorder ∧
    root.preorder.Nodup ∧ (∀ place, place ∈ root.preorder ↔ root.Leads place) ∧
    (∀ f ∈ walk root, root.at? f.place = some f.node ∧
      f.ancestors = (root.passed f.place).reverse) ∧
    (root.All Node.InOrder →
      (walk root).Pairwise (fun f g => f.node.start ≤ g.node.start) ∧
      ∀ (m : Module) (limit : Int), m.root = root →
        (m.calls limit).Pairwise (fun c d => c.line ≤ d.line)) := by
  refine ⟨fun σ handlers state => handlers.walk_eq_foldl root state, length_walk_le root,
    place_walk root, root.nodup_preorder, fun place => Node.mem_preorder,
    fun f hf => ancestors_of_mem_walk hf, fun hordered => ⟨walk_starts_ordered hordered, ?_⟩⟩
  rintro m limit rfl
  exact m.calls_lines_ordered hordered limit

/-- A function over two lines, with a call inside another one on the first of them:
`g(h());` and `k()`. -/
def Module.nestedCalls : Module where
  path := "a.js"
  text := "function f()\x7bg(h());\nk()\x7d"
  language := .javascript
  source := Reexport.bytes "function f()\x7bg(h());\nk()\x7d"
  root := ⟨"program", true, none, 0, 25,
    [⟨"function_declaration", true, none, 0, 25,
      [⟨"function", false, none, 0, 8, []⟩,
       ⟨"identifier", true, some "name", 9, 10, []⟩,
       ⟨"formal_parameters", true, some "parameters", 10, 12, []⟩,
       ⟨"statement_block", true, some "body", 12, 25,
        [⟨"\x7b", false, none, 12, 13, []⟩,
         ⟨"expression_statement", true, none, 13, 20,
          [⟨"call_expression", true, none, 13, 19,
            [⟨"identifier", true, some "function", 13, 14, []⟩,
             ⟨"arguments", true, some "arguments", 14, 19,
              [⟨"call_expression", true, none, 15, 18,
                [⟨"identifier", true, some "function", 15, 16, []⟩,
                 ⟨"arguments", true, some "arguments", 16, 18, []⟩]⟩]⟩]⟩]⟩,
         ⟨"expression_statement", true, none, 21, 24,
          [⟨"call_expression", true, none, 21, 24,
            [⟨"identifier", true, some "function", 21, 22, []⟩,
             ⟨"arguments", true, some "arguments", 22, 24, []⟩]⟩]⟩]⟩]⟩]⟩

theorem Module.nestedCalls_inOrder : nestedCalls.root.All Node.InOrder := by
  simp [nestedCalls, Node.all_mk, Node.inOrder_iff, Node.Encloses]

/-- The calls are handled from the outside in and from the front to the back, and their lines are
in order. -/
theorem Module.nestedCalls_handled :
    nestedCalls.root.All Node.InOrder ∧
    (walkKinds nestedCalls.root ["call_expression"]).map Focus.place =
      [[0, 3, 1, 0], [0, 3, 1, 0, 1, 0], [0, 3, 2, 0]] ∧
    (nestedCalls.calls 80).map (fun c => (c.callee, c.line)) = [("g", 1), ("h", 1), ("k", 2)] ∧
    (nestedCalls.calls 80).Pairwise (fun c d => c.line ≤ d.line) := by
  obtain ⟨-, -, -, -, -, -, hordered⟩ := handlers_called_in_preorder nestedCalls.root
  exact ⟨nestedCalls_inOrder, by decide +kernel, by decide +kernel,
    (hordered nestedCalls_inOrder).2 nestedCalls 80 rfl⟩

end CodeGraph
