import CodeGraph.Analysis.Files
import CodeGraph.Facts.Symbols
import CodeGraph.SymbolGraph.Link

/-!
# Analysing symbols

The symbols, calls and imports of every file of a tree, linked into one graph. Files that cannot
be parsed bring nothing.
-/

namespace CodeGraph

/-- The calls of a module, with conditions cut to the limit that is in force. -/
def Module.callsUnder (m : Module) (settings : Except SettingsFault Settings)
    (asked : Option Int) : Except SettingsFault (List CallFact) :=
  (Settings.conditionLimit settings asked).map m.calls

/-- What a module brings to the symbol graph. -/
def Module.fileSymbols (m : Module) (d : Disk) (s : Settings) (c : Context) (path : String) :
    FileSymbols where
  file := path
  symbols := m.symbols path
  calls := m.calls s.conditionMaxLength
  imports := m.imports d s.sourceExtensions (c.placeOf path) c.root

/-- What a file brings to the symbol graph, if anything. -/
def fileSymbols (d : Disk) (settings : Except SettingsFault Settings) (c : Context)
    (path : String) : Run (Option FileSymbols × Context) := do
  let (p, c) ← c.runParse d path
  match p with
  | .ok m =>
    let s ← Run.ofSettings settings
    pure (some (m.fileSymbols d s c path), c)
  | .error u =>
    Run.tell [.skipped path u.obstacle.message]
    pure (none, c)

/-- What some files of the root bring to the symbol graph. -/
def collectSymbols (d : Disk) (settings : Except SettingsFault Settings) (c : Context)
    (files : List String) : Run (List FileSymbols) := do
  let (found, _) ← Run.forEach (fileSymbols d settings) c files
  pure (found.filterMap id)

/-- The symbol graph of a root. -/
def analyzeSymbols (parser : Parser) (d : Disk) (settings : Except SettingsFault Settings)
    (root : String) : Run SymbolGraph := do
  let c ← Run.ofAnalysis (Context.new parser d root)
  let s ← Run.ofSettings settings
  let files := scan d (s.scanRules false) c.root
  let found ← collectSymbols d settings c files
  let (symbols, edges) := linkSymbols Resolver.standard found
  Run.tell [.symbolGraphBuilt c.root symbols.length edges.length]
  pure ⟨symbols, edges, files⟩

end CodeGraph
