import CodeGraph.Graph
import CodeGraph.Record.Checked

/-!
# Reading records

Every record of the graphs, read from JSON. Fields that may be left out have their usual defaults,
and fields that are not known are passed over.
-/

namespace CodeGraph

open Check

/-- An export. -/
def Export.check : Json → Checked Export :=
  record fun j => Export.mk
    <$> field j "name" text
    <*> field j "kind" (choice ExportKind.all ExportKind.text)

/-- An imported name. -/
def Specifier.check : Json → Checked Specifier :=
  record fun j => Specifier.mk
    <$> field j "name" text
    <*> field j "imported" text
    <*> field j "kind" (choice SpecifierKind.all SpecifierKind.text)

/-- An import. -/
def Import.check : Json → Checked Import :=
  record fun j => Import.mk
    <$> field j "source" text
    <*> fieldOption j "resolved" text
    <*> fieldList j "specifiers" Specifier.check

/-- A declaration. -/
def Declaration.check : Json → Checked Declaration :=
  record fun j => Declaration.mk
    <$> field j "name" text
    <*> field j "kind" (choice DeclarationKind.all DeclarationKind.text)

/-- The facts about a file. -/
def FileRecord.check : Json → Checked FileRecord :=
  record fun j => FileRecord.mk
    <$> field j "path" text
    <*> fieldOr j "size" 0 integer
    <*> fieldOr j "lines" 0 integer
    <*> fieldList j "exports" Export.check
    <*> fieldList j "imports" Import.check
    <*> fieldList j "declarations" Declaration.check
    <*> fieldList j "references" text
    <*> fieldList j "script_refs" text
    <*> fieldOr j "parsed" true truth

/-- A file of the graph. -/
def FileNode.check : Json → Checked FileNode :=
  record fun j => FileNode.mk
    <$> field j "id" text
    <*> fieldList j "exports" Export.check
    <*> fieldOr j "lines" 0 integer
    <*> field j "folder" text
    <*> field j "extension" text
    <*> fieldOr j "incoming_count" 0 integer

/-- A connection of files. -/
def FileEdge.check : Json → Checked FileEdge :=
  record fun j => FileEdge.mk
    <$> field j "source" text
    <*> field j "target" text
    <*> fieldOr j "weight" 0 integer
    <*> fieldList j "references" text

/-- A graph of files. -/
def FileGraph.check : Json → Checked FileGraph :=
  record fun j => FileGraph.mk
    <$> fieldList j "nodes" FileNode.check
    <*> fieldList j "edges" FileEdge.check
    <*> fieldList j "folders" text
    <*> fieldList j "extensions" text

/-- A condition. -/
def Condition.check : Json → Checked Condition :=
  record fun j => Condition.mk
    <$> field j "text" Check.text
    <*> field j "branch" (choice Branch.all Branch.text)

/-- A call. -/
def CallFact.check : Json → Checked CallFact :=
  record fun j => CallFact.mk
    <$> field j "caller" text
    <*> field j "callee" text
    <*> fieldOption j "object_name" text
    <*> fieldOr j "line" 0 integer
    <*> fieldOption j "condition" Condition.check

/-- A symbol. -/
def Symbol.check : Json → Checked Symbol :=
  record fun j => Symbol.mk
    <$> field j "id" text
    <*> field j "name" text
    <*> field j "kind" (choice SymbolKind.all SymbolKind.text)
    <*> field j "file" text
    <*> fieldOr j "start_line" 0 integer
    <*> fieldOr j "end_line" 0 integer
    <*> fieldOption j "params" (list text)
    <*> fieldOption j "parent" text
    <*> fieldOption j "exported" truth
    <*> fieldOption j "super_class" text
    <*> fieldOption j "methods" (list text)

/-- An edge of the symbol graph. -/
def SymbolEdge.check : Json → Checked SymbolEdge :=
  record fun j => EdgeOf.mk
    <$> field j "source" text
    <*> field j "target" text
    <*> field j "kind" (choice EdgeKind.all EdgeKind.text)
    <*> fieldOption j "conditions" (list Condition.check)

/-- A graph of symbols. -/
def SymbolGraph.check : Json → Checked SymbolGraph :=
  record fun j => SymbolGraph.mk
    <$> fieldList j "symbols" Symbol.check
    <*> fieldList j "edges" SymbolEdge.check
    <*> fieldList j "files" text

end CodeGraph
