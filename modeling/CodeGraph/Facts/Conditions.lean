import CodeGraph.Facts.Reading
import CodeGraph.Text.Words

/-!
# Conditions

The condition under which a call happens: the innermost branch of an `if` or a ternary around it,
looked for no further than the nearest function. A call inside a test belongs to neither branch.
-/

namespace CodeGraph

/-- Kinds of nodes that are functions. -/
def functionKinds : List String :=
  ["function_declaration", "function_expression", "function", "arrow_function",
   "generator_function", "generator_function_declaration", "method_definition"]

namespace Conditions

/-- A text in one line, cut to a limit. A cut text ends in three dots, which count. -/
def shorten (text : String) (limit : Int) : String :=
  let flat := Words.collapse text.toList
  if limit < flat.length then String.ofList (flat.take (limit - 3).toNat) ++ "..."
  else String.ofList flat

/-- The test without the parentheses around it. -/
def unwrap (n : Node) : Node :=
  if n.kind == "parenthesized_expression" then
    (n.namedChildren.find? (fun c => c.kind != "comment")).getD n
  else n

/-- The text of a test. -/
def testText (m : Module) (test : Option Node) (limit : Int) : String :=
  shorten ((test.map (fun n => m.textOf (unwrap n))).getD "") limit

/-- The branches of a conditional: the one that is taken, and the other. -/
def branches? (kind : String) : Option (Branch × Branch) :=
  if kind == "if_statement" then some (.ifThen, .ifElse)
  else if kind == "ternary_expression" then some (.ternaryThen, .ternaryElse)
  else none

/-- The branch entered by a step, if the step enters one. -/
def branchOf? (s : Step) : Option Branch :=
  match branches? s.parent.kind with
  | some (taken, other) =>
    if s.entersField "consequence" then some taken
    else if s.entersField "alternative" then some other
    else none
  | none => none

/-- The nearest branch on the way up. -/
def nearest (m : Module) (limit : Int) : List Step → Option Condition
  | [] => none
  | s :: rest =>
    if functionKinds.contains s.parent.kind then none
    else
      match branchOf? s with
      | some branch => some ⟨testText m (s.parent.field? "condition") limit, branch⟩
      | none => nearest m limit rest

end Conditions

/-- The condition under which a visited node is reached. -/
def Module.conditionOf (m : Module) (f : Focus) (limit : Int) : Option Condition :=
  Conditions.nearest m limit f.above

end CodeGraph
