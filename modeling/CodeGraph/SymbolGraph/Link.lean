import CodeGraph.SymbolGraph.EdgeSet
import CodeGraph.SymbolGraph.Resolver

/-!
# Linking symbols

The symbols and calls of all files joined into one list of edges. Edges that would leave a symbol
unknown are dropped, and nothing calls itself.
-/

namespace CodeGraph

/-- An edge on its way into the set. -/
structure EdgeFact where
  source : String
  target : String
  kind : EdgeKind
  condition : Option Condition
  deriving DecidableEq, Repr

namespace Link

/-- What an import refers to: the symbol under the imported name, or under the local one. -/
def importTarget? (index : SymbolIndex) (b : Binding) : Option String :=
  (index.target? b.fromFile b.imported).or (index.target? b.fromFile b.localName)

/-- The edges of a file's imports. -/
def importFacts (index : SymbolIndex) (f : FileSymbols) : List EdgeFact :=
  (index.bindingsIn f.file).values.filterMap fun b =>
    (importTarget? index b).map fun target => ⟨symbolId f.file b.localName, target, .imports, none⟩

/-- The edges of one call. -/
def callFacts (index : SymbolIndex) (resolvers : List Resolver) (file : String)
    (call : CallFact) : List EdgeFact :=
  match index.lookup file call.caller with
  | none => []
  | some caller =>
    ((resolveCall index resolvers file call).filter (· != caller)).map fun target =>
      ⟨caller, target, .calls, call.condition⟩

/-- The edges of a file. -/
def fileFacts (index : SymbolIndex) (resolvers : List Resolver) (f : FileSymbols) :
    List EdgeFact :=
  importFacts index f ++ f.calls.flatMap (callFacts index resolvers f.file)

/-- The edges of all files. -/
def facts (index : SymbolIndex) (resolvers : List Resolver) (files : List FileSymbols) :
    List EdgeFact :=
  files.flatMap (fileFacts index resolvers)

/-- The set of some edges. -/
def collect (facts : List EdgeFact) : EdgeSet EdgeKind :=
  facts.foldl (fun set e => EdgeSet.add set e.source e.target e.kind e.condition) []

end Link

/-- The symbols of some files and the edges between them. -/
def linkSymbols (resolvers : List Resolver) (files : List FileSymbols) :
    List Symbol × List SymbolEdge :=
  let index := SymbolIndex.ofFiles files
  (index.symbols.values,
    (Link.collect (Link.facts index resolvers files)).edges (some index.symbols.keys))

end CodeGraph
