import CodeGraph.Fact
import CodeGraph.Source

/-!
# Reading nodes

Questions about single nodes that several extractors ask.
-/

namespace CodeGraph

/-- The value of a plain string literal, without its quotes. -/
def Module.stringValue? (m : Module) (n : Node) : Option String :=
  if n.kind != "string" then none
  else
    let raw := (m.textOf n).toList
    match raw with
    | [] => none
    | [_] => none
    | quote :: rest =>
      if (quote == '\'' || quote == '"') && rest.getLast? == some quote then
        some (String.ofList rest.dropLast)
      else none

/-- A name in an import or export list: an identifier, or a string without its quotes. -/
def Module.listedName? (m : Module) (n : Node) : Option String :=
  let name := if n.kind == "string" then m.stringValue? n else some (m.textOf n)
  match name with
  | some name => if name.isEmpty then none else some name
  | none => none

namespace Module

/-- The name a node declares: the text under its name field. -/
def declaredName? (m : Module) (n : Node) : Option String :=
  m.fieldText? n "name"

/-- The name a node declares, if it is not empty. -/
def properName? (m : Module) (n : Node) : Option String :=
  match m.declaredName? n with
  | some name => if name.isEmpty then none else some name
  | none => none

/-- Is the node this name, used as a plain name? -/
def isName (m : Module) (n : Node) (name : String) : Bool :=
  n.kind == "identifier" && m.textOf n == name

/-- The text under the name field, if a plain name stands there. -/
def plainName? (m : Module) (n : Node) : Option String :=
  match n.field? "name" with
  | some name => if name.kind == "identifier" then some (m.textOf name) else none
  | none => none

/-- Does the node load a module by calling `require`? -/
def isRequire (m : Module) (n : Node) : Bool :=
  n.kind == "call_expression" &&
    match n.field? "function" with
    | some f => m.isName f "require"
    | none => false

/-- Readable names of parameters; patterns become dots. A single parameter may stand without its
list. -/
def parameterNames (m : Module) (params : Option Node) : List String :=
  match params with
  | none => []
  | some params =>
    if params.kind == "identifier" then [m.textOf params]
    else
      (params.namedChildren.filter
          (fun p => p.kind != "comment" && p.kind != "decorator")).map fun p =>
        let p :=
          if p.kind == "required_parameter" || p.kind == "optional_parameter" then
            (p.field? "pattern").getD p
          else p
        let p := if p.kind == "assignment_pattern" then (p.field? "left").getD p else p
        if p.kind == "identifier" then m.textOf p else "..."

/-- The name after `extends`, if it is a plain one. -/
def superClass? (m : Module) (n : Node) : Option String :=
  let parts := n.namedChildren.filter
    (fun c => c.kind == "class_heritage" && !c.namedChildren.isEmpty)
  match parts with
  | [] => none
  | heritage :: _ =>
    match heritage.namedChildren with
    | [] => none
    | part :: _ =>
      let value := if part.kind == "extends_clause" then part.field? "value" else some part
      match value with
      | some v => if v.kind == "identifier" then some (m.textOf v) else none
      | none => none

end Module

/-- The arguments of a call, comments aside. -/
def callArguments (n : Node) : List Node :=
  match n.field? "arguments" with
  | some args => args.namedChildren.filter (fun a => a.kind != "comment")
  | none => []

end CodeGraph
