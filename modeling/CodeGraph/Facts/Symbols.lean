import CodeGraph.Facts.Callers
import CodeGraph.Facts.Exports

/-!
# Symbols and calls

The named things of a file (functions, classes with their methods, variables at the top, types)
and the calls made inside its functions. Symbols come in the order of the walk; a class follows
its methods.
-/

namespace CodeGraph

namespace Symbols

/-- The least length of the name of a variable. -/
def shortestVariable : Nat := 2

/-- A symbol that spans a node, with nothing else known about it. -/
def spanning (m : Module) (file name : String) (kind : SymbolKind) (n : Node) : Symbol :=
  { id := symbolId file name, name := name, kind := kind, file := file
    startLine := m.startLine n, endLine := m.endLine n
    params := none, parent := none, exported := none, superClass := none, methods := none }

/-- Is the visited node exported where it stands? -/
def isExported (f : Focus) : Bool :=
  f.parentKind? == some "export_statement"

/-- The symbol of a declared function. -/
def ofFunction (m : Module) (file : String) (f : Focus) : List Symbol :=
  match m.properName? f.node with
  | some name =>
    [{ spanning m file name .function f.node with
        params := some (m.parameterNames (f.node.field? "parameters"))
        exported := some (isExported f) }]
  | none => []

/-- The symbol of a function assigned to a variable. -/
def ofFunctionValue (m : Module) (file : String) (f : Focus) : List Symbol :=
  match m.assignedName? f with
  | some name =>
    let params := (f.node.field? "parameters").or (f.node.field? "parameter")
    let declaration := f.parent?.bind (·.parent?)
    [{ spanning m file name .function f.node with
        params := some (m.parameterNames params)
        exported := some (declaration.any isExported) }]
  | none => []

/-- The members of a class that are methods under plain names, each with its name. -/
def methodsOf (m : Module) (n : Node) : List (String × Node) :=
  match n.field? "body" with
  | some body =>
    (body.namedChildren.filter (fun c => c.kind == "method_definition")).filterMap fun c =>
      (m.methodName? c).map (fun name => (name, c))
  | none => []

/-- The symbols of a class: its methods, then itself. -/
def ofClass (m : Module) (file : String) (f : Focus) : List Symbol :=
  match m.properName? f.node with
  | some className =>
    let methods := methodsOf m f.node
    methods.map (fun (name, n) =>
      { spanning m file (Module.qualifiedName className name) .method n with
        params := some (m.parameterNames (n.field? "parameters"))
        parent := some (symbolId file className) }) ++
    [{ spanning m file className .classDef f.node with
        methods := some (methods.map (·.1))
        superClass := m.superClass? f.node
        exported := some (isExported f) }]
  | none => []

/-- Is a declarator's value a symbol or an import of its own? -/
def hasOwnEntry (m : Module) (value : Option Node) : Bool :=
  value.any (fun v => m.isRequire v || functionValues.contains v.kind)

/-- The symbol of one declarator of a declaration. -/
def ofDeclarator? (m : Module) (file : String) (f : Focus) (d : Node) : Option Symbol :=
  match m.plainName? d with
  | some name =>
    if name.length < shortestVariable || hasOwnEntry m (d.field? "value") then none
    else some { spanning m file name .variableDef d with exported := some (isExported f) }
  | none => none

/-- The symbols of variables declared at the top. -/
def ofVariables (m : Module) (file : String) (f : Focus) : List Symbol :=
  if f.parentKind? == some "program" || f.parentKind? == some "export_statement" then
    (Exports.declarators f.node).filterMap (ofDeclarator? m file f)
  else []

/-- The kind of symbol that a type declaration makes. -/
def typeKind? (kind : String) : Option SymbolKind :=
  [("type_alias_declaration", .type), ("interface_declaration", .interface),
   ("enum_declaration", .enum)].lookup kind

/-- The symbol of a declared type. -/
def ofType (m : Module) (file : String) (kind : SymbolKind) (f : Focus) : List Symbol :=
  match m.properName? f.node with
  | some name =>
    [{ spanning m file name kind f.node with exported := some (isExported f) }]
  | none => []

/-- The symbols at a visited node. -/
def ofVisit (m : Module) (file : String) (f : Focus) : List Symbol :=
  if functionDeclarations.contains f.kind then ofFunction m file f
  else if functionValues.contains f.kind then ofFunctionValue m file f
  else if classDeclarations.contains f.kind then ofClass m file f
  else if Exports.declaresVariables f.node then ofVariables m file f
  else
    match typeKind? f.kind with
    | some kind => ofType m file kind f
    | none => []

end Symbols

namespace Calls

/-- What a call calls: the name, and the receiver if it is a plain one. -/
def calleeOf? (m : Module) (n : Node) : Option (String × Option String) :=
  match n.field? "function" with
  | none => none
  | some callee =>
    if callee.kind == "identifier" then some (m.textOf callee, none)
    else if callee.kind == "member_expression" then
      match callee.field? "property" with
      | some property =>
        if property.kind == "property_identifier" then
          let receiver := (callee.field? "object").filter
            (fun o => o.kind == "identifier" || o.kind == "this")
          some (m.textOf property, receiver.map m.textOf)
        else none
      | none => none
    else none

/-- The call at a visited node. Loading a module is no call. -/
def ofVisit (m : Module) (limit : Int) (f : Focus) : Option CallFact :=
  if f.kind != "call_expression" then none
  else
    match calleeOf? m f.node with
    | some (callee, receiver) =>
      if callee == "require" then none
      else
        (m.callerOf? f).map fun caller =>
          { caller := caller, callee := callee, objectName := receiver
            line := m.startLine f.node, condition := m.conditionOf f limit }
    | none => none

end Calls

/-- The symbols of a module, in the order of the walk. -/
def Module.symbols (m : Module) (file : String) : List Symbol :=
  (walk m.root).flatMap (Symbols.ofVisit m file)

/-- The calls of a module, in source order; conditions are cut to the limit. -/
def Module.calls (m : Module) (limit : Int) : List CallFact :=
  (walk m.root).filterMap (Calls.ofVisit m limit)

end CodeGraph
