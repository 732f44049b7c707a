import CodeGraph.Analysis.Context
import CodeGraph.Facts.Declarations
import CodeGraph.Facts.Imports
import CodeGraph.Facts.ScriptTags
import CodeGraph.FileGraph.Assemble

/-!
# Analysing files

The facts about every file of a tree, collected in two passes: what a file says by itself, and what
it says about others.
-/

namespace CodeGraph

/-- The imports of a module that lead to files of the root. -/
def Module.imports (m : Module) (d : Disk) (extensions : List String) (file root : String) :
    List Import :=
  m.importSites.filterMap fun site =>
    (Resolve.target? d extensions site.source file root).map fun target =>
      ⟨site.source, some target, site.specifiers⟩

/-- The imports of a module under settings that are looked at only if an import needs them. -/
def Module.importsUnder (m : Module) (d : Disk) (settings : Except SettingsFault Settings)
    (file root : String) : Except SettingsFault (List Import) :=
  if m.importSites.any (fun site => Resolve.isLocal site.source) then
    settings.map (fun s => m.imports d s.sourceExtensions file root)
  else .ok (m.imports d [] file root)

/-- How a file is read: as a module, or as a page with script tags. -/
inductive FileRole where
  | module
  | page
  deriving DecidableEq, Repr

/-- How a file is read, by its extension. -/
def FileRole.ofPath (path : String) : FileRole :=
  if Language.ofPath path == .html then .page else .module

/-- The number of lines of a file. -/
def countLines (data : Bytes) : Nat :=
  data.count Reexport.newline + 1

namespace FileRecord

/-- A record that says nothing but the size of a file. -/
def ofData (path : String) (data : Bytes) : FileRecord where
  path := path
  size := data.length
  lines := countLines data
  exports := []
  imports := []
  declarations := []
  references := []
  scriptRefs := []
  parsed := true

/-- A file in the first pass. -/
def first (d : Disk) (c : Context) (path : String) : Run (FileRecord × Context) := do
  let (data, c) ← c.runBytes d path
  let r := ofData path data
  match FileRole.ofPath path with
  | .page =>
    pure ({ r with
      scriptRefs := scriptFiles d (Utf8.decodeLossy data) (c.placeOf path) c.root }, c)
  | .module =>
    let (p, c) ← c.runParse d path
    match p with
    | .ok m => pure ({ r with exports := m.exports }, c)
    | .error _ => pure ({ r with parsed := false }, c)

/-- A file in the second pass. -/
def second (d : Disk) (extensions : List String) (c : Context) (r : FileRecord) :
    Run (FileRecord × Context) :=
  match FileRole.ofPath r.path with
  | .page => pure (r, c)
  | .module => do
    let (p, c) ← c.runParse d r.path
    match p with
    | .ok m =>
      pure ({ r with
        imports := m.imports d extensions (c.placeOf r.path) c.root
        declarations := m.declarations
        references := m.references }, c)
    | .error _ => pure (r, c)

end FileRecord

/-- The files that could not be parsed, as an event. -/
def unparsedEvents (records : List FileRecord) : List Event :=
  let paths := (records.filter (fun r => !r.parsed)).map (·.path)
  if paths.isEmpty then [] else [.unparsed paths]

/-- The records of all files of the root. The tree may change between the passes. -/
def collectRecords (before after : Disk) (settings : Settings) (c : Context) :
    Run (List FileRecord) := do
  let files := scan before (settings.scanRules true) c.root
  let (records, c) ← Run.forEach (FileRecord.first before) c files
  let (records, _) ← Run.forEach (FileRecord.second after settings.sourceExtensions) c records
  Run.tell (unparsedEvents records)
  pure records

/-- The records of all files of a root. -/
def fileRecords (parser : Parser) (d : Disk) (settings : Except SettingsFault Settings)
    (root : String) : Run (List FileRecord) := do
  let c ← Run.ofAnalysis (Context.new parser d root)
  let s ← Run.ofSettings settings
  collectRecords d d s c

/-- The file graph of a root. -/
def analyzeFiles (parser : Parser) (d : Disk) (settings : Except SettingsFault Settings)
    (root : String) : Run FileGraph := do
  let records ← fileRecords parser d settings root
  let graph := FileGraph.assemble records
  Run.tell [.fileGraphBuilt (Path.absolute d.cwd root) graph.nodes.length graph.edges.length]
  pure graph

end CodeGraph
