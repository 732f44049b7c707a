import CodeGraph.Facts.Exports
import CodeGraph.Table

/-!
# Declarations and references

What stands declared at the top of a script, and the names used anywhere in it. Short names are
too common to tell files apart, so they are not listed as declarations.
-/

namespace CodeGraph

namespace Declarations

/-- The least length of a listed name. -/
def shortest : Nat := 3

/-- The declaration of a name, if it is long enough. -/
def named (name : String) (kind : DeclarationKind) : List Declaration :=
  if shortest ≤ name.length then [⟨name, kind⟩] else []

/-- The declaration that a declarator makes; a required module is an import. -/
def ofDeclarator (m : Module) (n : Node) : List Declaration :=
  match m.plainName? n with
  | some name =>
    if (n.field? "value").any m.isRequire then [] else named name .variableDef
  | none => []

/-- The declarations that a statement makes. -/
def ofStatement (m : Module) (n : Node) : List Declaration :=
  if n.kind == "function_declaration" || n.kind == "generator_function_declaration" then
    ((m.declaredName? n).toList).flatMap (named · .function)
  else if n.kind == "class_declaration" then
    ((m.declaredName? n).toList).flatMap (named · .classDef)
  else if Exports.declaresVariables n then
    (Exports.declarators n).flatMap (ofDeclarator m)
  else []

end Declarations

/-- The declarations at the top of a module. -/
def Module.declarations (m : Module) : List Declaration :=
  m.root.namedChildren.flatMap (Declarations.ofStatement m)

namespace References

/-- Nodes whose name field declares a name. -/
def declaring : List String :=
  ["function_declaration", "generator_function_declaration", "class_declaration",
   "variable_declarator"]

/-- Nodes whose names are import or export specifiers. -/
def specifying : List String :=
  ["import_specifier", "import_clause", "namespace_import", "export_specifier",
   "import_require_clause"]

/-- Does a name stand here to be declared or listed, not to be used? -/
def introduces (f : Focus) : Bool :=
  match f.parentKind? with
  | some kind => (declaring.contains kind && f.isField "name") || specifying.contains kind
  | none => false

end References

/-- The names used in a module, one mention per use. -/
def Module.mentions (m : Module) : List String :=
  ((walkKinds m.root ["identifier", "shorthand_property_identifier"]).filter
    (fun f => !References.introduces f)).map (fun f => m.textOf f.node)

/-- The names used in a module, sorted. -/
def Module.references (m : Module) : List String :=
  Sorted.distinct m.mentions

end CodeGraph
