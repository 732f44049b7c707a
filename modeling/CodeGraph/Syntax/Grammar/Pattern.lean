import CodeGraph.Syntax.Grammar.Rule

/-!
# Patterns and parameters

What a declaration, a parameter list or an assignment binds.
-/

namespace CodeGraph.Grammar

open Form

/-- The kinds of node that can be assigned to. -/
def targetKinds : List String :=
  ["identifier", "undefined", "member_expression", "subscript_expression",
   "non_null_expression"]

/-- Member access after an operand. -/
def memberTail : F :=
  wrap "member_expression" (some "object") []
    (seq [choice [field "optional_chain" (tokenNode "optional_chain" "?."), token "."],
      field "property"
        (choice [lexeme "private_property_identifier" Lexeme.privateWord,
          word "property_identifier" []])])

/-- Access by a computed key after an operand. -/
def subscriptTail : F :=
  wrap "subscript_expression" (some "object") []
    (seq [opt (field "optional_chain" (tokenNode "optional_chain" "?.")),
      token "[", field "index" (rule (.expressions .inner)), token "]"])

/-- A call after an operand. -/
def callTail : F :=
  wrap "call_expression" (some "function") [] (field "arguments" (rule .arguments))

/-- A name or a place to assign to. -/
def target : F :=
  seq [choice [keywordNode "undefined" "undefined", keywordNode "this" "this",
      keywordNode "super" "super", name],
    many (choice [memberTail, subscriptTail, callTail]),
    lastIs targetKinds]

/-- A pattern that takes what is left over. -/
def restPattern : F :=
  node "rest_pattern" (seq [token "...", choice [rule .destructuring, target]])

/-- A pattern. -/
def patternForm : F :=
  choice [restPattern, rule .destructuring, target]

/-- A pattern with an optional default. -/
def defaulted : F :=
  seq [rule .pattern,
    opt (wrap "assignment_pattern" (some "left") []
      (seq [operator ["="], field "right" (rule (.expression .inner))]))]

/-- A name in an object pattern that stands for both key and variable. -/
def shorthandPattern (d : Dialect) : F :=
  word "shorthand_property_identifier_pattern" (if d.typed then [] else reservedWords)

/-- An object pattern. -/
def objectPattern (d : Dialect) : F :=
  node "object_pattern" (seq [token "\x7b",
    holes (choice [
      node "pair_pattern" (seq [field "key" (rule .propertyName), token ":",
        field "value" defaulted]),
      restPattern,
      node "object_assignment_pattern" (seq [
        field "left" (choice [shorthandPattern d, rule .destructuring]), operator ["="],
        field "right" (rule (.expression .inner))]),
      shorthandPattern d]),
    token "\x7d"])

/-- An array pattern. -/
def arrayPattern : F :=
  node "array_pattern" (seq [token "[", holes defaulted, token "]"])

/-- A pattern in brackets or braces. -/
def destructuringForm (d : Dialect) : F :=
  choice [objectPattern d, arrayPattern]

/-- Visibility of a member. -/
def accessibility (member : Bool) : F :=
  node "accessibility_modifier"
    (modifier member (choice [keyword "public", keyword "private", keyword "protected"]))

/-- The mark of a member that replaces an inherited one. -/
def overrideModifier (member : Bool) : F :=
  node "override_modifier" (modifier member (keyword "override"))

/-- The start of a typed parameter, up to its pattern. -/
def parameterHead : F :=
  seq [decorators, opt (accessibility false), opt (overrideModifier false),
    opt (modifier false (keyword "readonly")),
    field "pattern" (choice [rule .pattern, keywordNode "this" "this"])]

/-- The end of a typed parameter, after its pattern. -/
def parameterTail : F :=
  seq [opt (field "type" (rule (.statedType .inner))), opt (initializer .inner)]

/-- A parameter. -/
def parameter (d : Dialect) : F :=
  if d.typed then
    choice [
      node "optional_parameter" (seq [parameterHead, token "?", parameterTail]),
      node "required_parameter" (seq [parameterHead, parameterTail])]
  else defaulted

/-- A parameter list. -/
def parametersForm (d : Dialect) : F :=
  node "formal_parameters" (seq [token "(",
    opt (seq [list1 (parameter d), opt (token ",")]), token ")"])

/-- A statement about an argument's type. -/
def typePredicate (m : Mode) : F :=
  node "type_predicate" (seq [field "name" (choice [keywordNode "this" "this", binder .typescript]),
    keyword "is", field "type" (rule (.type m))])

/-- A statement that an argument has been checked. -/
def asserts (m : Mode) : F :=
  node "asserts" (seq [keyword "asserts",
    choice [typePredicate m, keywordNode "this" "this", binder .typescript]])

/-- The result of a function. -/
def returnType (m : Mode) : F :=
  field "return_type" (choice [
    node "asserts_annotation" (seq [token ":", asserts m]),
    node "type_predicate_annotation" (seq [token ":", typePredicate m]),
    seq [without (seq [token ":", keyword "asserts"]), rule (.statedType m)]])

/-- The parameters of a function, with its type parameters and result where there are types. -/
def signatureForm (d : Dialect) (withReturn : Bool) : F :=
  if d.typed then
    seq [opt (field "type_parameters" (rule .typeParameters)),
      field "parameters" (rule .parameters),
      if withReturn then opt (returnType .ending) else nothing]
  else field "parameters" (rule .parameters)

end CodeGraph.Grammar
