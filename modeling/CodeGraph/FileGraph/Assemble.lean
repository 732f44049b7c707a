import CodeGraph.FileGraph.Builder
import CodeGraph.Path

/-!
# Assembling the file graph

From the records of all files to one graph, whatever the order of the records.
-/

namespace CodeGraph

/-- The declarations whose names are not taken, as exports; each name once. -/
def addDeclared (taken : List String) : List Declaration → List Export
  | [] => []
  | d :: rest =>
    if taken.contains d.name then addDeclared taken rest
    else ⟨d.name, d.kind.toExport⟩ :: addDeclared (d.name :: taken) rest

/-- The exports of a file, followed by what it declares besides. -/
def FileRecord.mergedExports (r : FileRecord) : List Export :=
  r.exports ++ addDeclared (r.exports.map (·.name)) r.declarations

namespace FileGraph

/-- Count what one record says. -/
def addRecord (b : FileGraphBuilder) (r : FileRecord) : FileGraphBuilder :=
  let b := r.imports.foldl (fun b i => b.addImport r.path i) b
  r.scriptRefs.foldl (fun b s => b.addScript r.path s) b

/-- The folder of a file; a point for the top. -/
def folderOf (path : String) : String :=
  let folder := Path.directory path
  if folder.isEmpty then "." else folder

/-- The node of a record. -/
def nodeOf (b : FileGraphBuilder) (r : FileRecord) : FileNode where
  id := r.path
  exports := r.mergedExports
  lines := r.lines
  folder := folderOf r.path
  extension := Path.ext r.path
  incomingCount := b.incomingCount r.path

/-- The graph of some records. -/
def assemble (records : List FileRecord) : FileGraph :=
  let records := records.mergeSort (fun r s => r.path ≤ s.path)
  let b := records.foldl addRecord (FileGraphBuilder.new (records.map (·.path)))
  let nodes := records.map (nodeOf b)
  { nodes := nodes
    edges := b.edges
    folders := Sorted.distinct (nodes.map (·.folder))
    extensions := Sorted.distinct (nodes.map (·.extension)) }

end FileGraph

end CodeGraph
