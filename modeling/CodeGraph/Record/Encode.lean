import CodeGraph.Graph
import CodeGraph.Json

/-!
# Writing records

Every record of the graphs as JSON, with all its fields in their fixed order.
-/

namespace CodeGraph

open Json in
/-- An export. -/
def Export.toJson (e : Export) : Json :=
  object [("name", string e.name), ("kind", string e.kind.text)]

open Json in
/-- An imported name. -/
def Specifier.toJson (s : Specifier) : Json :=
  object [("name", string s.name), ("imported", string s.imported), ("kind", string s.kind.text)]

open Json in
/-- An import. -/
def Import.toJson (i : Import) : Json :=
  object [("source", string i.source), ("resolved", ofOption string i.resolved),
    ("specifiers", ofList Specifier.toJson i.specifiers)]

open Json in
/-- A declaration. -/
def Declaration.toJson (d : Declaration) : Json :=
  object [("name", string d.name), ("kind", string d.kind.text)]

open Json in
/-- The facts about a file. -/
def FileRecord.toJson (r : FileRecord) : Json :=
  object [("path", string r.path), ("size", int r.size), ("lines", int r.lines),
    ("exports", ofList Export.toJson r.exports), ("imports", ofList Import.toJson r.imports),
    ("declarations", ofList Declaration.toJson r.declarations),
    ("references", strings r.references), ("script_refs", strings r.scriptRefs),
    ("parsed", bool r.parsed)]

open Json in
/-- A file of the graph. -/
def FileNode.toJson (n : FileNode) : Json :=
  object [("id", string n.id), ("exports", ofList Export.toJson n.exports),
    ("lines", int n.lines), ("folder", string n.folder), ("extension", string n.extension),
    ("incoming_count", int n.incomingCount)]

open Json in
/-- A connection of files. -/
def FileEdge.toJson (e : FileEdge) : Json :=
  object [("source", string e.source), ("target", string e.target), ("weight", int e.weight),
    ("references", strings e.references)]

open Json in
/-- A graph of files. -/
def FileGraph.toJson (g : FileGraph) : Json :=
  object [("nodes", ofList FileNode.toJson g.nodes), ("edges", ofList FileEdge.toJson g.edges),
    ("folders", strings g.folders), ("extensions", strings g.extensions)]

open Json in
/-- A condition. -/
def Condition.toJson (c : Condition) : Json :=
  object [("text", string c.text), ("branch", string c.branch.text)]

open Json in
/-- A call. -/
def CallFact.toJson (c : CallFact) : Json :=
  object [("caller", string c.caller), ("callee", string c.callee),
    ("object_name", ofOption string c.objectName), ("line", int c.line),
    ("condition", ofOption Condition.toJson c.condition)]

open Json in
/-- A symbol. -/
def Symbol.toJson (s : Symbol) : Json :=
  object [("id", string s.id), ("name", string s.name), ("kind", string s.kind.text),
    ("file", string s.file), ("start_line", int s.startLine), ("end_line", int s.endLine),
    ("params", ofOption strings s.params), ("parent", ofOption string s.parent),
    ("exported", ofOption bool s.exported), ("super_class", ofOption string s.superClass),
    ("methods", ofOption strings s.methods)]

open Json in
/-- An edge of the symbol graph. -/
def SymbolEdge.toJson (e : SymbolEdge) : Json :=
  object [("source", string e.source), ("target", string e.target),
    ("kind", string e.kind.text), ("conditions", ofOption (ofList Condition.toJson) e.conditions)]

open Json in
/-- What one file brings to the symbol graph. -/
def FileSymbols.toJson (f : FileSymbols) : Json :=
  object [("file", string f.file), ("symbols", ofList Symbol.toJson f.symbols),
    ("calls", ofList CallFact.toJson f.calls), ("imports", ofList Import.toJson f.imports)]

open Json in
/-- A graph of symbols. -/
def SymbolGraph.toJson (g : SymbolGraph) : Json :=
  object [("symbols", ofList Symbol.toJson g.symbols),
    ("edges", ofList SymbolEdge.toJson g.edges), ("files", strings g.files)]

end CodeGraph
