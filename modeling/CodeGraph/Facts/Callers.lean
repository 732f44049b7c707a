import CodeGraph.Facts.Conditions

/-!
# Callers

Which function or method a call belongs to. Functions without a name are looked through, so what a
callback calls counts for the named function around it.
-/

namespace CodeGraph

/-- Declarations of functions. -/
def functionDeclarations : List String :=
  ["function_declaration", "generator_function_declaration"]

/-- Functions as values. -/
def functionValues : List String :=
  ["arrow_function", "function_expression", "function", "generator_function"]

/-- Declarations of classes. -/
def classDeclarations : List String :=
  ["class_declaration", "abstract_class_declaration"]

namespace Module

/-- The name of the variable that a visited value is assigned to, if it is not empty. -/
def assignedName? (m : Module) (f : Focus) : Option String :=
  match f.parent? with
  | some parent =>
    if parent.kind == "variable_declarator" && f.isField "value" then
      (m.plainName? parent.node).filter (fun name => !name.isEmpty)
    else none
  | none => none

/-- The name of a method, if it is a plain one and not empty. -/
def methodName? (m : Module) (n : Node) : Option String :=
  match n.field? "name" with
  | some name =>
    if name.kind == "property_identifier" then
      some (m.textOf name) |>.filter (fun name => !name.isEmpty)
    else none
  | none => none

/-- The qualified name of a method of a class. -/
def qualifiedName (className method : String) : String :=
  className ++ "." ++ method

/-- The qualified name of a visited method, if its class is declared under a name. The way up from
the method leads through the class body. -/
def methodOwner? (m : Module) (n : Node) (above : List Step) : Option String :=
  match above with
  | _ :: owner :: _ =>
    match m.methodName? n, m.properName? owner.parent with
    | some method, some className =>
      if classDeclarations.contains owner.parent.kind then some (qualifiedName className method)
      else none
    | _, _ => none
  | _ => none

/-- Look for the caller on the way up. -/
def callerAbove? (m : Module) : List Step → Option String
  | [] => none
  | s :: rest =>
    if functionDeclarations.contains s.parent.kind then m.declaredName? s.parent
    else if functionValues.contains s.parent.kind then
      match m.assignedName? ⟨s.parent, rest⟩ with
      | some name => some name
      | none => callerAbove? m rest
    else if s.parent.kind == "method_definition" then
      match rest with
      | body :: _ =>
        if body.parent.kind == "class_body" then m.methodOwner? s.parent rest
        else callerAbove? m rest
      | [] => none
    else callerAbove? m rest

/-- The qualified name of the function or method that a visited call belongs to. -/
def callerOf? (m : Module) (f : Focus) : Option String :=
  m.callerAbove? f.above

end Module

end CodeGraph
