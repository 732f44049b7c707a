import CodeGraph.Facts.Reading

/-!
# Exports

What a module exports, by export statements and by assignments to `module.exports` and
`exports`.
-/

namespace CodeGraph

namespace Exports

/-- The kind under which a declaration is exported. -/
def kindOf? (kind : String) : Option ExportKind :=
  [("function_declaration", .function), ("generator_function_declaration", .function),
   ("function_signature", .function), ("class_declaration", .classDef),
   ("abstract_class_declaration", .classDef), ("type_alias_declaration", .type),
   ("interface_declaration", .interface), ("enum_declaration", .enum)].lookup kind

/-- Does the node declare variables? -/
def declaresVariables (n : Node) : Bool :=
  n.kind == "lexical_declaration" || n.kind == "variable_declaration"

/-- The declarators of a declaration of variables. -/
def declarators (n : Node) : List Node :=
  n.namedChildren.filter (fun c => c.kind == "variable_declarator")

mutual

/-- What an exported declaration exports; an ambient one exports what it wraps. -/
def ofDeclaration (m : Module) : Node → List Export
  | ⟨kind, named, field, start, stop, children⟩ =>
    let n : Node := ⟨kind, named, field, start, stop, children⟩
    if kind == "ambient_declaration" then ofDeclarations m children
    else if declaresVariables n then
      (declarators n).filterMap fun d => (m.plainName? d).map (fun name => ⟨name, .variableDef⟩)
    else
      match kindOf? kind, m.properName? n with
      | some kind, some name => [⟨name, kind⟩]
      | _, _ => []

/-- What the named ones of these declarations export. -/
def ofDeclarations (m : Module) : List Node → List Export
  | [] => []
  | n :: rest =>
    (if n.named then ofDeclaration m n else []) ++ ofDeclarations m rest

end

/-- The names in a list or a namespace of an export statement. -/
def ofClause (m : Module) (n : Node) : List Export :=
  let names :=
    if n.kind == "export_clause" then
      (n.namedChildren.filter (fun c => c.kind == "export_specifier")).filterMap fun spec =>
        ((spec.field? "alias").or (spec.field? "name")).bind m.listedName?
    else if n.kind == "namespace_export" then n.namedChildren.filterMap m.listedName?
    else []
  names.map (fun name => ⟨name, .reexport⟩)

/-- The name under which a default export is listed. -/
def defaultName (m : Module) (target : Option Node) : String :=
  let name := target.bind fun t =>
    if t.kind == "identifier" then some (m.textOf t) else m.declaredName? t
  match name with
  | some name => if name.isEmpty then "default" else name
  | none => "default"

/-- What an export statement exports. -/
def ofStatement (m : Module) (n : Node) : List Export :=
  let declaration := n.field? "declaration"
  if n.hasToken "default" then
    [⟨defaultName m (declaration.or (n.field? "value")), .default⟩]
  else
    (match declaration with
      | some d => ofDeclaration m d
      | none => []) ++
    n.namedChildren.flatMap (ofClause m)

/-- The object of a member access, and the property if it is a plain name. -/
def memberParts (m : Module) (n : Node) : Option Node × Option String :=
  let property := match n.field? "property" with
    | some p => if p.kind == "property_identifier" then some (m.textOf p) else none
    | none => none
  (n.field? "object", property)

/-- Is the node this name? -/
def isNamed (m : Module) (n : Option Node) (name : String) : Bool :=
  match n with
  | some n => m.isName n name
  | none => false

/-- Is the node `module.exports`? -/
def isModuleExports (m : Module) (n : Option Node) : Bool :=
  match n with
  | some n =>
    let (object, property) := memberParts m n
    n.kind == "member_expression" && isNamed m object "module" && property == some "exports"
  | none => false

/-- The key under which a member of an exported object is known. -/
def memberKey? (n : Node) : Option Node :=
  let key :=
    if n.kind == "shorthand_property_identifier" then some n
    else if n.kind == "pair" then n.field? "key"
    else if n.kind == "method_definition" then n.field? "name"
    else none
  key.filter fun k =>
    k.kind == "property_identifier" || k.kind == "shorthand_property_identifier"

/-- What an assignment exports. -/
def ofAssignment (m : Module) (n : Node) : List Export :=
  match n.field? "left", n.field? "right" with
  | some left, some right =>
    if left.kind != "member_expression" then []
    else
      let (object, property) := memberParts m left
      if isNamed m object "module" && property == some "exports" then
        if right.kind == "identifier" then [⟨m.textOf right, .commonDefault⟩]
        else if right.kind == "object" then
          (right.namedChildren.filterMap memberKey?).map (fun k => ⟨m.textOf k, .commonNamed⟩)
        else [⟨"default", .commonDefault⟩]
      else
        match property with
        | some name =>
          if !name.isEmpty && (isNamed m object "exports" || isModuleExports m object) then
            [⟨name, .commonNamed⟩]
          else []
        | none => []
  | _, _ => []

/-- What a visited node exports. -/
def ofNode (m : Module) (n : Node) : List Export :=
  if n.kind == "export_statement" then ofStatement m n
  else if n.kind == "assignment_expression" then ofAssignment m n
  else []

end Exports

/-- The exports of a module, in source order. -/
def Module.exports (m : Module) : List Export :=
  (walk m.root).flatMap (fun f => Exports.ofNode m f.node)

end CodeGraph
