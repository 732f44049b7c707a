import CodeGraph.Facts.Reading

/-!
# Import sites

Where a module asks for another one: import statements, calls of `require` and dynamic imports. A
site keeps the specifier as written and the names it brings; where it leads is decided elsewhere.
-/

namespace CodeGraph

/-- A place where a module is asked for. -/
structure ImportSite where
  source : String
  specifiers : List Specifier
  deriving DecidableEq, Repr

namespace Imports

/-- The names of an import list. -/
def ofList (m : Module) (n : Node) : List Specifier :=
  (n.namedChildren.filter (fun s => s.kind == "import_specifier")).filterMap fun spec =>
    match (spec.field? "name").bind m.listedName? with
    | none => none
    | some imported =>
      let name := ((spec.field? "alias").bind m.listedName?).getD imported
      some ⟨name, imported, .named⟩

/-- The names that one part of an import clause brings. -/
def ofClausePart (m : Module) (n : Node) : List Specifier :=
  if n.kind == "identifier" then [⟨m.textOf n, "default", .default⟩]
  else if n.kind == "namespace_import" then
    (n.namedChildren.filter (fun c => c.kind == "identifier")).map fun c =>
      ⟨m.textOf c, "*", .wholeModule⟩
  else if n.kind == "named_imports" then ofList m n
  else []

/-- The site of an import statement that assigns a required module. -/
def ofRequireClause (m : Module) (n : Node) : Option ImportSite :=
  let name := match n.namedChildren.find? (fun c => c.kind == "identifier") with
    | some c => m.textOf c
    | none => "default"
  ((n.field? "source").bind m.stringValue?).map fun source =>
    ⟨source, [⟨name, "default", .commonRequire⟩]⟩

/-- The site of an import statement. -/
def ofStatement (m : Module) (n : Node) : Option ImportSite :=
  match n.namedChildren.find? (fun c => c.kind == "import_require_clause") with
  | some clause => ofRequireClause m clause
  | none =>
    ((n.field? "source").bind m.stringValue?).map fun source =>
      ⟨source, (n.namedChildren.filter (fun c => c.kind == "import_clause")).flatMap fun c =>
        c.namedChildren.flatMap (ofClausePart m)⟩

/-- The variable that a call's result is bound to. -/
def bindingOf (m : Module) (f : Focus) : String :=
  match f.parent? with
  | some parent =>
    if parent.kind == "variable_declarator" && f.isField "value" then
      (m.plainName? parent.node).getD "default"
    else "default"
  | none => "default"

/-- The site of a call. -/
def ofCall (m : Module) (f : Focus) : Option ImportSite :=
  match f.node.field? "function" with
  | none => none
  | some callee =>
    match callArguments f.node with
    | [] => none
    | first :: others =>
      let site := fun (name : String) (kind : SpecifierKind) =>
        (m.stringValue? first).map fun source => (⟨source, [⟨name, "default", kind⟩]⟩ : ImportSite)
      if m.isRequire f.node && others.isEmpty then site (bindingOf m f) .commonRequire
      else if callee.kind == "import" then site "default" .dynamicImport
      else none

/-- The site at a visited node. -/
def ofVisit (m : Module) (f : Focus) : Option ImportSite :=
  if f.kind == "import_statement" then ofStatement m f.node
  else if f.kind == "call_expression" then ofCall m f
  else none

end Imports

/-- The import sites of a module, in source order. -/
def Module.importSites (m : Module) : List ImportSite :=
  (walk m.root).filterMap (Imports.ofVisit m)

end CodeGraph
