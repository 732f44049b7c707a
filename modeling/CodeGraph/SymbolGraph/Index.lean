import CodeGraph.Graph
import CodeGraph.Table

/-!
# Looking up symbols

An index over the symbols of all files: by id, by file and name, methods by bare name, and what
each file calls the names it imports. A later entry replaces an earlier one under the same key.
-/

namespace CodeGraph

/-- What a file calls a name that it imports. -/
structure Binding where
  localName : String
  imported : String
  kind : SpecifierKind
  fromFile : String
  deriving DecidableEq, Repr

/-- Lookups over all symbols of a run. -/
structure SymbolIndex where
  /-- The symbols by id. -/
  symbols : Table String Symbol
  /-- The ids by name, for each file. -/
  names : Table String (Table String String)
  /-- The imported names by local name, for each file. -/
  bindings : Table String (Table String Binding)
  deriving Repr

namespace SymbolIndex

/-- An index of nothing. -/
def empty : SymbolIndex :=
  ⟨[], [], []⟩

/-- The bindings that imports make; those that lead nowhere make none. -/
def bindingsOf (imports : List Import) : List Binding :=
  imports.flatMap fun i =>
    match i.resolved with
    | some file => i.specifiers.map fun s => ⟨s.name, s.imported, s.kind, file⟩
    | none => []

/-- Add what one file brings. -/
def add (index : SymbolIndex) (f : FileSymbols) : SymbolIndex where
  symbols := f.symbols.foldl (fun t s => t.set s.id s) index.symbols
  names := index.names.update f.file [] fun t =>
    f.symbols.foldl (fun t s => t.set s.name s.id) t
  bindings := index.bindings.update f.file [] fun t =>
    (bindingsOf f.imports).foldl (fun t b => t.set b.localName b) t

/-- The index of some files. -/
def ofFiles (files : List FileSymbols) : SymbolIndex :=
  files.foldl add empty

/-- The id of a name in a file. -/
def lookup (index : SymbolIndex) (file name : String) : Option String :=
  (index.names.get? file).bind (·.get? name)

/-- The id of a name in a file, unless it is empty. -/
def target? (index : SymbolIndex) (file name : String) : Option String :=
  (index.lookup file name).filter (fun id => !id.isEmpty)

/-- What a file calls its imports. -/
def bindingsIn (index : SymbolIndex) (file : String) : Table String Binding :=
  (index.bindings.get? file).getD []

/-- The part of a name after its last point. -/
def bareName (name : String) : String :=
  String.ofList ((name.toList.reverse.takeWhile (· != '.')).reverse)

/-- The methods, in the order of their ids. -/
def allMethods (index : SymbolIndex) : List Symbol :=
  index.symbols.values.filter (fun s => s.kind == .method)

/-- The methods with this bare name. -/
def methods (index : SymbolIndex) (name : String) : List Symbol :=
  index.allMethods.filter (fun s => bareName s.name == name)

end SymbolIndex

end CodeGraph
