import CodeGraph.Graph
import CodeGraph.Table

/-!
# Summaries

Graphs in a few words.
-/

namespace CodeGraph

namespace Summary

/-- How many exports of a file are named. -/
def shownExports : Nat := 10

/-- A file in a few words. -/
def node (n : FileNode) : String :=
  let head := "File " ++ n.id ++ " (" ++ toString n.lines ++ " lines, " ++
    toString n.incomingCount ++ " incoming)"
  if n.exports.isEmpty then head
  else
    head ++ "\n  Exports: " ++
      String.intercalate ", " ((n.exports.take shownExports).map (·.name))

/-- A file graph in a few words. -/
def fileGraph (g : FileGraph) : String :=
  "Found " ++ toString g.nodes.length ++ " files, " ++ toString g.edges.length ++
    " connections across " ++ toString g.folders.length ++ " folders"

/-- How often each kind of symbol occurs, in the order of the kinds' names. -/
def kindCounts (symbols : List Symbol) : List (String × Nat) :=
  let kinds := symbols.map (fun s => s.kind.text)
  (Sorted.distinct kinds).map (fun kind => (kind, kinds.count kind))

/-- Does an edge have a condition? -/
def isConditional (e : SymbolEdge) : Bool :=
  match e.conditions with
  | some conditions => !conditions.isEmpty
  | none => false

/-- A symbol graph in a few words. -/
def symbolGraph (g : SymbolGraph) : String :=
  let head := "Found " ++ toString g.symbols.length ++ " symbols in " ++
    toString g.files.length ++ " files, " ++ toString g.edges.length ++ " edges (" ++
    toString (g.edges.filter isConditional).length ++ " conditional)"
  let kinds := (kindCounts g.symbols).map (fun (kind, count) => toString count ++ " " ++ kind)
  if kinds.isEmpty then head else head ++ ": " ++ String.intercalate ", " kinds

/-- The start of a list: so many items, or all but so many when the number is negative. -/
def takeUpTo {α : Type} (limit : Int) (items : List α) : List α :=
  if 0 ≤ limit then items.take limit.toNat else items.take (items.length + limit).toNat

/-- The files imported most often, up to a limit. -/
def mostReferenced (g : FileGraph) (limit : Int) : List FileNode :=
  takeUpTo limit (g.nodes.mergeSort fun a b =>
    b.incomingCount < a.incomingCount || (a.incomingCount == b.incomingCount && a.id ≤ b.id))

end Summary

end CodeGraph
