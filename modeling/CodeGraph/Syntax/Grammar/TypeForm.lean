import CodeGraph.Syntax.Grammar.Expression

/-!
# Types

Type syntax, loosest first: conditional types, unions, intersections, then operands with their
brackets.
-/

namespace CodeGraph.Grammar

open Form

/-- A name made of several by points. The last step gives the stated kind, the steps before it are
member expressions. -/
def qualified (kind : String) (last : F) : F :=
  let part := seq [token ".", field "property" (word "property_identifier" [])]
  let step := fun (kind : String) => wrap kind (some "object") [] part
  seq [binder .typescript,
    many (seq [ahead (seq [part, part, last]), step "member_expression"]),
    step kind, last]

/-- A name or a name made of several. -/
def moduleName : F :=
  choice [qualified "nested_identifier" nothing, word "identifier" ["require"]]

/-- Words that begin a type and so do not name one by themselves. -/
def typeStarters : F :=
  choice (["infer", "keyof", "readonly", "unique"].map keyword)

/-- A type's name, possibly inside modules. -/
def typeReference : F :=
  let more := ahead (token ".")
  seq [without typeStarters, choice [
    node "nested_type_identifier" (seq [
      field "module" (choice [qualified "nested_identifier" more, seq [name, more]]),
      token ".", field "name" (word "type_identifier" [])]),
    typeName]]

/-- A type's name with its arguments, if it has any. -/
def genericReference : F :=
  seq [typeReference,
    opt (wrap "generic_type" (some "name") []
      (field "type_arguments" (rule .typeArguments)))]

/-- Types with one value. -/
def literalType : F :=
  node "literal_type" (choice [
    node "unary_expression" (seq [field "operator" (operator ["-", "+"]),
      field "argument" numberForm]),
    numberForm, rule .string, keywordNode "true" "true", keywordNode "false" "false",
    keywordNode "null" "null", keywordNode "undefined" "undefined"])

/-- Types of texts with a pattern. -/
def templateType (m : Mode) : F :=
  let infer := node "infer_type" (seq [keyword "infer", typeName])
  node "template_literal_type" (seq [token "`",
    many (choice [lexemeHere "string_fragment" Lexeme.templateChars,
      node "template_type" (seq [tokenHere "$\x7b", choice [infer, rule (.union m)],
        token "\x7d"])]),
    tokenHere "`"])

/-- A member of the value whose type is asked for. -/
def queryTails : F :=
  many (choice [memberTail, callTail,
    wrap "subscript_expression" (some "object") []
      (seq [opt (token "?."), token "[",
        field "index" (choice [predefined, rule .string, numberForm]), token "]"])])

/-- The type of a value. -/
def typeQuery : F :=
  node "type_query" (seq [keyword "typeof",
    choice [keywordNode "import" "import", keywordNode "this" "this", binder .typescript],
    queryTails,
    opt (wrap "instantiation_expression" (some "function") []
      (field "type_arguments" (rule .typeArguments)))])

/-- A type found in a loaded module. -/
def importedType : F :=
  seq [keywordNode "import" "import", choice [callTail, memberTail], many (choice [
    wrap "member_expression" (some "object") []
      (seq [token ".", field "property" (word "property_identifier" [])]),
    callTail])]

/-- A member of a tuple type. -/
def tupleMember : F :=
  choice [
    node "required_parameter" (seq [
      field "name" (choice [node "rest_pattern" (seq [token "...", binder .typescript]),
        binder .typescript]),
      field "type" (rule (.statedType .inner))]),
    node "optional_parameter" (seq [field "name" (binder .typescript), token "?",
      field "type" (rule (.statedType .inner))]),
    node "rest_type" (seq [token "...", rule (.type .inner)]),
    seq [rule (.type .inner), opt (wrap "optional_type" none [] (token "?"))]]

/-- An operand of a type, without the brackets that may follow. -/
def primaryTypeForm (m : Mode) : F :=
  choice [
    node "parenthesized_type" (seq [token "(", rule (.type .inner), token ")"]),
    predefined,
    keywordNode "this_type" "this",
    literalType,
    templateType .inner,
    rule (.objectType "object_type"),
    node "tuple_type" (seq [token "[", list tupleMember, token "]"]),
    typeQuery,
    node "index_type_query" (seq [keyword "keyof", rule (.typeOperand m)]),
    node "flow_maybe_type" (seq [token "?", rule (.typeOperand m)]),
    node "existential_type" (token "*"),
    importedType,
    keyword "const",
    genericReference]

/-- The type of a function. -/
def functionType (m : Mode) : F :=
  node "function_type" (seq [opt (field "type_parameters" (rule .typeParameters)),
    field "parameters" (rule .parameters), token "=>",
    field "return_type" (choice [asserts m, typePredicate m, rule (.type m)])])

/-- The type of a constructor. -/
def constructorType (m : Mode) : F :=
  node "constructor_type" (seq [opt (keyword "abstract"), keyword "new",
    opt (field "type_parameters" (rule .typeParameters)),
    field "parameters" (rule .parameters), token "=>", field "type" (rule (.type m))])

/-- An operand of a type. -/
def typeOperandForm (m : Mode) : F :=
  let here := if m.line then without inserted else nothing
  choice [
    functionType m,
    constructorType m,
    node "readonly_type" (seq [keyword "readonly", rule (.type m)]),
    node "infer_type" (seq [keyword "infer", typeName,
      opt (seq [keyword "extends", rule (.union m)])]),
    seq [rule (.primaryType m),
      many (choice [
        wrap "array_type" none [] (seq [here, token "[", token "]"]),
        wrap "lookup_type" none [] (seq [here, token "[", rule (.type .inner), token "]"])])]]

/-- Operands joined by an operator, which may also stand in front. -/
def joined (kind mark : String) (part : F) : F :=
  seq [choice [node kind (seq [operator [mark], part]), part],
    many (wrap kind none [] (seq [operator [mark], part]))]

/-- A type. -/
def typeForm (m : Mode) : F :=
  seq [rule (.union m),
    opt (wrap "conditional_type" (some "left") [] (seq [
      if m.line then without inserted else nothing,
      keyword "extends", field "right" (rule (.union .inner)), token "?",
      field "consequence" (rule (.type .inner)), token ":",
      field "alternative" (rule (.type m))])),
    operandEnds false]

/-- Arguments of a generic type or function. -/
def typeArgumentsForm : F :=
  node "type_arguments" (seq [token "<", list1 (rule (.type .inner)), opt (token ","),
    token ">"])

/-- A parameter of a generic type or function. -/
def typeParameter : F :=
  node "type_parameter" (seq [opt (seq [keyword "const", ahead (word "identifier" [])]),
    field "name" typeName,
    opt (field "constraint" (node "constraint"
      (seq [choice [keyword "extends", token ":"], rule (.type .inner)]))),
    opt (field "value" (node "default_type" (seq [token "=", rule (.type .inner)])))])

/-- Parameters of a generic type or function. -/
def typeParametersForm : F :=
  node "type_parameters" (seq [token "<", list1 typeParameter, opt (token ","), token ">"])

/-- A stated type. -/
def statedTypeForm (m : Mode) : F :=
  node "type_annotation" (seq [token ":", rule (.type m)])

/-! ## Object types -/

/-- Modifiers that may stand before a member of a class or object type. -/
def memberModifiers : F :=
  seq [opt (accessibility true), opt (modifier true (keyword "static")),
    opt (overrideModifier true), opt (modifier true (keyword "readonly"))]

/-- A method without a body. -/
def methodSignature (member : F) : F :=
  node "method_signature" (seq [memberModifiers, opt (modifier true (keyword "async")),
    opt (choice [modifier true (choice [keyword "get", keyword "set"]), token "*"]),
    field "name" member, opt (token "?"), rule (.signature true)])

/-- A family of members by key. -/
def indexSignature : F :=
  node "index_signature" (seq [
    opt (seq [opt (field "sign" (operator ["-", "+"])), keyword "readonly"]),
    token "[",
    choice [
      seq [field "name" (binder .typescript), token ":", field "index_type" (rule (.type .inner))],
      node "mapped_type_clause" (seq [field "name" (word "type_identifier" []), keyword "in",
        field "type" (rule (.type .inner)),
        opt (seq [keyword "as", field "alias" (rule (.type .inner))])])],
    token "]",
    field "type" (choice [
      node "omitting_type_annotation" (seq [token "-?:", rule (.type .ending)]),
      node "adding_type_annotation" (seq [token "+?:", rule (.type .ending)]),
      node "opting_type_annotation" (seq [token "?:", rule (.type .ending)]),
      rule (.statedType .ending)])])

/-- A member of an object type. -/
def typeMember : F :=
  choice [
    rule .exportStatement,
    node "call_signature" (rule (.signature true)),
    node "construct_signature" (seq [opt (keyword "abstract"), keyword "new",
      opt (field "type_parameters" (rule .typeParameters)),
      field "parameters" (rule .parameters), opt (field "type" (rule (.statedType .ending)))]),
    indexSignature,
    methodSignature (rule .propertyName),
    node "property_signature" (seq [memberModifiers, field "name" (rule .propertyName),
      opt (token "?"), opt (field "type" (rule (.statedType .ending)))])]

/-- An object type, or the body of an interface. -/
def objectTypeForm (kind : String) : F :=
  let separator := choice [token ",", rule .semicolon]
  node kind (seq [token "\x7b",
    opt (seq [opt (choice [token ",", token ";"]), typeMember,
      many (seq [separator, typeMember]), opt separator]),
    token "\x7d"])

end CodeGraph.Grammar
