import CodeGraph.Fact

/-!
# Graphs

The two graphs of a code base: files connected by imports and script tags, and symbols connected
by calls and imports.
-/

namespace CodeGraph

/-! ## Files -/

/-- All facts about one file. -/
structure FileRecord where
  path : String
  size : Int
  lines : Int
  exports : List Export
  imports : List Import
  declarations : List Declaration
  references : List String
  scriptRefs : List String
  parsed : Bool
  deriving DecidableEq, Repr

/-- A file of the graph. -/
structure FileNode where
  id : String
  exports : List Export
  lines : Int
  folder : String
  extension : String
  incomingCount : Int
  deriving DecidableEq, Repr

/-- A connection of two files. -/
structure FileEdge where
  source : String
  target : String
  weight : Int
  references : List String
  deriving DecidableEq, Repr

/-- The graph of the files. -/
structure FileGraph where
  nodes : List FileNode
  edges : List FileEdge
  folders : List String
  extensions : List String
  deriving DecidableEq, Repr

/-! ## Symbols -/

/-- How symbols are connected. -/
inductive EdgeKind where
  | calls
  | imports
  deriving DecidableEq, Repr

namespace EdgeKind

/-- All kinds. -/
def all : List EdgeKind :=
  [calls, imports]

/-- The spelling of a kind. -/
def text : EdgeKind → String
  | calls => "calls"
  | imports => "imports"

end EdgeKind

/-- An edge between symbols. A kind is usually one of the two above; whoever collects edges may
use kinds of their own. -/
structure EdgeOf (κ : Type) where
  source : String
  target : String
  kind : κ
  conditions : Option (List Condition)
  deriving DecidableEq, Repr

/-- An edge of the symbol graph. -/
abbrev SymbolEdge := EdgeOf EdgeKind

/-- What one file brings to the symbol graph. -/
structure FileSymbols where
  file : String
  symbols : List Symbol
  calls : List CallFact
  imports : List Import
  deriving DecidableEq, Repr

/-- The graph of the symbols. -/
structure SymbolGraph where
  symbols : List Symbol
  edges : List SymbolEdge
  files : List String
  deriving DecidableEq, Repr

end CodeGraph
