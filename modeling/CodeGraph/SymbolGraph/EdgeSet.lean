import CodeGraph.Graph
import CodeGraph.Table

/-!
# Sets of edges

Edges without repetition: one for each source, target and kind. An edge added again brings its
condition to those known already, each of which is kept once.
-/

namespace CodeGraph

/-- What tells two edges apart. -/
structure EdgeKey (κ : Type) where
  source : String
  target : String
  kind : κ
  deriving DecidableEq, Repr

/-- Edges with their conditions, in the order in which they were first added. -/
abbrev EdgeSet (κ : Type) := Table (EdgeKey κ) (List Condition)

namespace EdgeSet

variable {κ : Type}

/-- Put a condition where it belongs, unless it is there already. -/
def insertCondition (c : Condition) : List Condition → List Condition
  | [] => [c]
  | d :: rest =>
    if c.before d then c :: d :: rest
    else if c == d then d :: rest
    else d :: insertCondition c rest

/-- Bring a condition, if there is one, to those of an edge. -/
def merge (condition : Option Condition) (conditions : List Condition) : List Condition :=
  match condition with
  | some c => insertCondition c conditions
  | none => conditions

/-- Add an edge. -/
def add [DecidableEq κ] (edges : EdgeSet κ) (source target : String) (kind : κ)
    (condition : Option Condition) : EdgeSet κ :=
  edges.update ⟨source, target, kind⟩ [] (merge condition)

/-- An edge with its conditions; none are written as nothing. -/
def toEdge (entry : EdgeKey κ × List Condition) : EdgeOf κ where
  source := entry.1.source
  target := entry.1.target
  kind := entry.1.kind
  conditions := if entry.2.isEmpty then none else some entry.2

/-- Is an edge between known symbols? Without a list of them, all are known. -/
def isKnown (known : Option (List String)) (e : EdgeOf κ) : Bool :=
  match known with
  | some ids => ids.contains e.source && ids.contains e.target
  | none => true

/-- The edges between known symbols. -/
def edges (set : EdgeSet κ) (known : Option (List String)) : List (EdgeOf κ) :=
  (set.map toEdge).filter (isKnown known)

end EdgeSet

end CodeGraph
