import CodeGraph.Graph
import CodeGraph.Table

/-!
# Counting connections

Connections between files add up: every imported name and every script tag counts once, whatever
its direction. The order in which facts arrive changes nothing but the order of the references.
-/

namespace CodeGraph

/-- The files of a connection, in order. -/
def canonicalPair (a b : String) : String × String :=
  if a ≤ b then (a, b) else (b, a)

/-- The weight of a connection and what it is made of. -/
structure Connection where
  weight : Nat
  references : List String
  deriving DecidableEq, Repr

/-- Connections as they add up. -/
structure FileGraphBuilder where
  known : List String
  connections : Table (String × String) Connection
  incoming : Table String Nat
  deriving Repr

namespace FileGraphBuilder

/-- What a script tag counts as. -/
def scriptReference : String := "script-src"

/-- A builder for some files. -/
def new (known : List String) : FileGraphBuilder :=
  ⟨known, [], []⟩

/-- Connect two files. A file is not connected to itself. -/
def connect (b : FileGraphBuilder) (source target : String) (references : List String) :
    FileGraphBuilder :=
  if source == target then b
  else
    { b with
      connections := b.connections.update (canonicalPair source target) ⟨0, []⟩ fun c =>
        ⟨c.weight + references.length, c.references ++ references⟩ }

/-- Count an import; one that leads out of the known files still counts as incoming. -/
def addImport (b : FileGraphBuilder) (file : String) (i : Import) : FileGraphBuilder :=
  match i.resolved with
  | none => b
  | some target =>
    let b := { b with incoming := b.incoming.update target 0 (· + 1) }
    if b.known.contains target then b.connect file target (i.specifiers.map (·.name)) else b

/-- Count a script tag. -/
def addScript (b : FileGraphBuilder) (page script : String) : FileGraphBuilder :=
  if b.known.contains script then b.connect page script [scriptReference] else b

/-- How often a file is imported. -/
def incomingCount (b : FileGraphBuilder) (path : String) : Nat :=
  (b.incoming.get? path).getD 0

/-- The order of pairs of texts. -/
def pairBefore (a b : String × String) : Bool :=
  a.1 < b.1 || (a.1 == b.1 && a.2 ≤ b.2)

/-- The edge of a connection. -/
def toEdge (entry : (String × String) × Connection) : FileEdge where
  source := entry.1.1
  target := entry.1.2
  weight := entry.2.weight
  references := entry.2.references

/-- The connections with a weight, in order. Files that only import each other for the effect are
not connected. -/
def edges (b : FileGraphBuilder) : List FileEdge :=
  ((b.connections.filter (fun e => 0 < e.2.weight)).mergeSort
    (fun x y => pairBefore x.1 y.1)).map toEdge

end FileGraphBuilder

end CodeGraph
