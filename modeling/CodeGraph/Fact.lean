/-!
# Facts

What one file says about itself: what it exports, imports, declares, defines and calls. Kinds are
closed lists with a fixed spelling each.
-/

namespace CodeGraph

/-- How a name is exported. -/
inductive ExportKind where
  | function
  | classDef
  | variableDef
  | type
  | interface
  | enum
  | default
  | reexport
  | commonDefault
  | commonNamed
  deriving DecidableEq, Repr

namespace ExportKind

/-- All kinds. -/
def all : List ExportKind :=
  [function, classDef, variableDef, type, interface, enum, default, reexport, commonDefault,
   commonNamed]

/-- The spelling of a kind. -/
def text : ExportKind → String
  | function => "function"
  | classDef => "class"
  | variableDef => "variable"
  | type => "type"
  | interface => "interface"
  | enum => "enum"
  | default => "default"
  | reexport => "re-export"
  | commonDefault => "commonjs-default"
  | commonNamed => "commonjs-named"

end ExportKind

/-- An exported name. -/
structure Export where
  name : String
  kind : ExportKind
  deriving DecidableEq, Repr

/-- How a name is imported. -/
inductive SpecifierKind where
  | default
  | wholeModule
  | named
  | commonRequire
  | dynamicImport
  deriving DecidableEq, Repr

namespace SpecifierKind

/-- All kinds. -/
def all : List SpecifierKind :=
  [default, wholeModule, named, commonRequire, dynamicImport]

/-- The spelling of a kind. -/
def text : SpecifierKind → String
  | default => "default"
  | wholeModule => "namespace"
  | named => "named"
  | commonRequire => "commonjs-require"
  | dynamicImport => "dynamic-import"

end SpecifierKind

/-- One imported name: what it is called here and on the exporting side. -/
structure Specifier where
  name : String
  imported : String
  kind : SpecifierKind
  deriving DecidableEq, Repr

/-- An import: the specifier as written, the file it leads to and the names it brings. -/
structure Import where
  source : String
  resolved : Option String
  specifiers : List Specifier
  deriving DecidableEq, Repr

/-- What is declared at the top of a file. -/
inductive DeclarationKind where
  | function
  | classDef
  | variableDef
  deriving DecidableEq, Repr

namespace DeclarationKind

/-- All kinds. -/
def all : List DeclarationKind :=
  [function, classDef, variableDef]

/-- The spelling of a kind. -/
def text : DeclarationKind → String
  | function => "function"
  | classDef => "class"
  | variableDef => "variable"

/-- The kind under which a declaration counts as an export. -/
def toExport : DeclarationKind → ExportKind
  | function => .function
  | classDef => .classDef
  | variableDef => .variableDef

end DeclarationKind

/-- A declaration at the top of a file. -/
structure Declaration where
  name : String
  kind : DeclarationKind
  deriving DecidableEq, Repr

/-- A branch of a conditional. -/
inductive Branch where
  | ifThen
  | ifElse
  | ternaryThen
  | ternaryElse
  deriving DecidableEq, Repr

namespace Branch

/-- All branches. -/
def all : List Branch :=
  [ifThen, ifElse, ternaryThen, ternaryElse]

/-- The spelling of a branch. -/
def text : Branch → String
  | ifThen => "if"
  | ifElse => "else"
  | ternaryThen => "ternary-then"
  | ternaryElse => "ternary-else"

end Branch

/-- The condition under which something happens: the text of a test and the branch taken. -/
structure Condition where
  text : String
  branch : Branch
  deriving DecidableEq, Repr

/-- The order of conditions: by text, then by the spelling of the branch. -/
def Condition.before (a b : Condition) : Bool :=
  a.text < b.text || (a.text == b.text && a.branch.text < b.branch.text)

/-- A call: which function or method makes it, what it calls, on what, where and when. -/
structure CallFact where
  caller : String
  callee : String
  objectName : Option String
  line : Int
  condition : Option Condition
  deriving DecidableEq, Repr

/-- What a symbol is. -/
inductive SymbolKind where
  | function
  | classDef
  | method
  | variableDef
  | type
  | interface
  | enum
  deriving DecidableEq, Repr

namespace SymbolKind

/-- All kinds. -/
def all : List SymbolKind :=
  [function, classDef, method, variableDef, type, interface, enum]

/-- The spelling of a kind. -/
def text : SymbolKind → String
  | function => "function"
  | classDef => "class"
  | method => "method"
  | variableDef => "variable"
  | type => "type"
  | interface => "interface"
  | enum => "enum"

end SymbolKind

/-- A named thing of a file. -/
structure Symbol where
  id : String
  name : String
  kind : SymbolKind
  file : String
  startLine : Int
  endLine : Int
  params : Option (List String)
  parent : Option String
  exported : Option Bool
  superClass : Option String
  methods : Option (List String)
  deriving DecidableEq, Repr

/-- The id of a name in a file. -/
def symbolId (file name : String) : String :=
  file ++ "::" ++ name

end CodeGraph
