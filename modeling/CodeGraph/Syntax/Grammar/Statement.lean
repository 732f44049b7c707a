import CodeGraph.Syntax.Grammar.TypeForm

/-!
# Statements and declarations
-/

namespace CodeGraph.Grammar

open Form

/-- The end of a statement. -/
def semicolonForm : F :=
  choice [token ";", inserted]

/-- A block. Where the block may end an operand, comments after it can belong to it. -/
def blockForm (operand : Bool) : F :=
  node "statement_block" (seq [token "\x7b", many (rule .statement), token "\x7d",
    operandEnds operand, opt inserted])

/-! ## Modules -/

/-- The module that names come from. -/
def fromClause : F :=
  seq [keyword "from", field "source" (rule .string)]

/-- A name in the list of an import or export, which may be written as a string. -/
def listedName (d : Dialect) : F :=
  choice [keyword "default", binder d, rule .string]

/-- The words that mark a type-only import or export. -/
def typeMark : F :=
  choice [keyword "type", keyword "typeof"]

/-- An export list. With type syntax its entries may be marked, and a mark is never a name. -/
def exportClause (d : Dialect) : F :=
  node "export_clause" (seq [token "\x7b",
    list (node "export_specifier" (seq [if d.typed then opt typeMark else nothing,
      field "name" (listedName d), opt (seq [keyword "as", field "alias" (listedName d)])])),
    token "\x7d"])

/-- The entry of an import list. With type syntax it may be marked; the mark `type` is a name when
`as` or the end of the entry follows. -/
def importSpecifier (d : Dialect) : F :=
  let renamed := fun entry : F => seq [field "name" entry, keyword "as", field "alias" (binder d)]
  let plain := choice [renamed (listedName d), seq [without (keyword "default"),
    field "name" (binder d)]]
  let ended := choice [token ",", token "\x7d"]
  let typeWord := seq [ahead (keyword "type"), binder d]
  node "import_specifier" (if d.typed then
      choice [renamed typeWord, seq [field "name" typeWord, ahead ended],
        seq [without (seq [keyword "type", keyword "as"]), opt typeMark, plain]]
    else plain)

/-- An export statement. -/
def exportForm (d : Dialect) : F :=
  let plain := seq [keyword "export", choice [
      seq [token "*", fromClause],
      seq [node "namespace_export" (seq [token "*", keyword "as", listedName d]), fromClause],
      seq [exportClause d, opt fromClause]],
    rule .semicolon]
  let declared := seq [decorators, keyword "export", choice [
      seq [keyword "default", choice [
        field "declaration" (rule .declaration),
        seq [without (choice [keyword "interface", keyword "enum", keyword "abstract"]),
          field "value" (rule (.expression .ending)), rule .semicolon]]],
      field "declaration" (rule .declaration)]]
  let typed := [
    seq [keyword "export", keyword "type", exportClause d, opt fromClause, rule .semicolon],
    seq [keyword "export", operator ["="], rule (.expression .ending), rule .semicolon],
    seq [keyword "export", keyword "as", keyword "namespace", binder d, rule .semicolon]]
  node "export_statement" (choice ([plain] ++ (if d.typed then typed else []) ++ [declared]))

/-- What an import statement binds. -/
def importClause (d : Dialect) : F :=
  let space := node "namespace_import" (seq [token "*", keyword "as", binder d])
  let named := node "named_imports" (seq [token "\x7b",
    list (importSpecifier d), token "\x7d"])
  node "import_clause" (choice [space, named,
    seq [binder d, opt (seq [token ",", choice [space, named]])]])

/-- An import statement. -/
def importForm (d : Dialect) : F :=
  let required := node "import_require_clause" (seq [binder d, token "=", keyword "require",
    token "(", field "source" (rule .string), token ")"])
  let what := choice ([seq [importClause d, fromClause], field "source" (rule .string)] ++
    if d.typed then [required] else [])
  let attributes := opt (seq [without inserted,
    node "import_attribute" (seq [keyword "with", rule .object])])
  node "import_statement" (choice (
    (if d.typed then [seq [keyword "import", typeMark, what, attributes, rule .semicolon]]
      else []) ++
    [seq [keyword "import", what, attributes, rule .semicolon]]))

/-! ## Declarations -/

/-- A variable with its initial value. -/
def declarator (d : Dialect) : F :=
  let plain := seq [field "name" (choice [binder d, rule .destructuring]),
    if d.typed then opt (field "type" (rule (.statedType .ending))) else nothing,
    opt (initializer .ending)]
  let definite := seq [field "name" (binder d), token "!",
    field "type" (rule (.statedType .ending))]
  node "variable_declarator" (if d.typed then choice [definite, plain] else plain)

/-- Variables of a block. -/
def lexicalForm (d : Dialect) (header : Bool) : F :=
  node "lexical_declaration" (seq [
    field "kind" (choice [seq [keyword "let", if header then nothing else goesOn],
      keyword "const"]),
    list1 (declarator d), rule .semicolon])

/-- Variables of a function. -/
def variableForm (d : Dialect) : F :=
  node "variable_declaration" (seq [keyword "var", list1 (declarator d), rule .semicolon])

/-- Variables that are disposed of at the end of their block. -/
def usingDeclaration (d : Dialect) : F :=
  node "using_declaration" (seq [
    field "kind" (choice [seq [keyword "await", keyword "using"], keyword "using"]), goesOn,
    list1 (declarator d), rule .semicolon])

/-- A function or generator with a name. -/
def functionDeclaration (d : Dialect) (kind : String) (star : F) : F :=
  node kind (seq [opt async, keyword "function", star, field "name" (binder d),
    rule (.signature true), field "body" (rule (.block true))])

/-- A function without a body. -/
def functionSignature (d : Dialect) : F :=
  node "function_signature" (seq [opt async, keyword "function", field "name" (binder d),
    rule (.signature true), rule .semicolon])

/-- A class with a name. -/
def classDeclaration (d : Dialect) : F :=
  node "class_declaration" (seq [decorators, keyword "class", field "name" (className d),
    classTail d, operandEnds true, opt inserted])

/-- A class that cannot be instantiated. -/
def abstractClass (d : Dialect) : F :=
  node "abstract_class_declaration" (seq [decorators, keyword "abstract", keyword "class",
    field "name" (className d), classTail d])

/-- The name and body of a module. -/
def moduleTail : F :=
  seq [goesOn, field "name" (choice [rule .string, moduleName]),
    opt (field "body" (rule (.block false)))]

/-- Declarations of type syntax. -/
def typedDeclarations (d : Dialect) : List F :=
  [functionSignature d,
   abstractClass d,
   node "module" (seq [keyword "module", moduleTail]),
   node "internal_module" (seq [keyword "namespace", moduleTail]),
   node "type_alias_declaration" (seq [keyword "type", goesOn, field "name" typeName,
     opt (field "type_parameters" (rule .typeParameters)), operator ["="],
     field "value" (rule (.type .ending)), rule .semicolon]),
   node "interface_declaration" (seq [keyword "interface", field "name" typeName,
     opt (field "type_parameters" (rule .typeParameters)),
     opt (node "extends_type_clause"
       (seq [keyword "extends", list1 (field "type" genericReference)])),
     field "body" (rule (.objectType "interface_body"))]),
   node "import_alias" (seq [keyword "import", binder d, token "=", moduleName,
     rule .semicolon]),
   node "ambient_declaration" (seq [keyword "declare", goesOn, choice [
     rule .declaration,
     seq [keyword "global", rule (.block false)],
     seq [keyword "module", token ".", word "property_identifier" [], token ":",
       rule (.type .ending), rule .semicolon]]])]

/-- An enumeration. -/
def enumDeclaration (d : Dialect) : F :=
  let member := choice [
    node "enum_assignment" (seq [field "name" (rule .propertyName), initializer .inner]),
    field "name" (rule .propertyName)]
  node "enum_declaration" (seq [opt (keyword "const"), keyword "enum", field "name" (binder d),
    field "body" (node "enum_body" (seq [token "\x7b",
      opt (seq [list1 member, opt (token ",")]), token "\x7d"]))])

/-- A declaration. -/
def declarationForm (d : Dialect) : F :=
  choice (
    (if d.typed then [enumDeclaration d] else []) ++
    [functionDeclaration d "function_declaration" nothing,
     functionDeclaration d "generator_function_declaration" (token "*"),
     classDeclaration d,
     rule (.lexicalDeclaration false),
     rule .variableDeclaration] ++
    if d.typed then typedDeclarations d else [usingDeclaration d])

/-! ## Classes -/

/-- A decorator. -/
def decoratorForm (d : Dialect) : F :=
  let call := wrap "call_expression" (some "function") [] (seq [
    if d.typed then opt (field "type_arguments" (rule .typeArguments)) else nothing,
    field "arguments" (rule .arguments)])
  let reference := seq [name,
    many (wrap "member_expression" (some "object") []
      (seq [token ".", field "property" (word "property_identifier" [])])),
    opt call]
  node "decorator" (seq [token "@", choice [reference,
    node "parenthesized_expression" (seq [token "(", reference, token ")"])]])

/-- A method with its body. -/
def methodForm (d : Dialect) (member : Bool) : F :=
  let accessor := opt (choice [modifier member (choice [keyword "get", keyword "set"]),
    token "*"])
  if d.typed then
    node "method_definition" (seq [
      opt (accessibility member), opt (modifier member (keyword "static")),
      opt (overrideModifier member), opt (modifier member (keyword "readonly")),
      opt (modifier member (keyword "async")), accessor,
      if member then without (choice [keyword "abstract", keyword "accessor"]) else nothing,
      field "name" (rule .propertyName), opt (token "?"), rule (.signature true),
      field "body" (rule (.block false))])
  else
    node "method_definition" (seq [decorators, opt (modifier member (keyword "static")),
      opt (modifier member (keyword "async")), accessor, field "name" (rule .propertyName),
      field "parameters" (rule .parameters), field "body" (rule (.block false))])

/-- Code that runs when the class is made. -/
def staticBlock : F :=
  node "class_static_block" (seq [keyword "static", field "body" (rule (.block false))])

/-- A field of a class without type syntax. -/
def plainField : F :=
  node "field_definition" (seq [decorators, opt (modifier true (keyword "static")),
    field "property" (rule .propertyName), opt (initializer .ending)])

/-- A field of a class with type syntax. -/
def typedField : F :=
  let mark := fun text : String => modifier true (keyword text)
  let declared := mark "declare"
  node "public_field_definition" (seq [decorators,
    opt (choice [seq [declared, opt (accessibility true)],
      seq [accessibility true, opt declared]]),
    choice [
      seq [mark "abstract", opt (mark "readonly")],
      seq [mark "readonly", opt (mark "abstract")],
      mark "accessor",
      seq [opt (mark "static"), opt (overrideModifier true), opt (mark "readonly")]],
    without (choice [keyword "abstract", keyword "accessor"]),
    field "name" (rule .propertyName), opt (choice [token "?", token "!"]),
    opt (field "type" (rule (.statedType .ending))), opt (initializer .ending)])

/-- A method that subclasses have to give. -/
def abstractMethod : F :=
  node "abstract_method_signature" (seq [opt (accessibility true), keyword "abstract",
    opt (overrideModifier true),
    opt (choice [modifier true (choice [keyword "get", keyword "set"]), token "*"]),
    field "name" (rule .propertyName), opt (token "?"), rule (.signature true)])

/-- The body of a class. -/
def classBodyForm (d : Dialect) : F :=
  let member :=
    if d.typed then
      choice [token ";", staticBlock,
        seq [decorators, rule (.method true), opt (rule .semicolon)],
        seq [choice [
            abstractMethod,
            indexSignature,
            methodSignature (seq [without (choice [keyword "abstract", keyword "accessor"]),
              rule .propertyName]),
            typedField],
          choice [rule .semicolon, token ","]]]
    else
      choice [token ";", field "member" staticBlock,
        seq [field "member" (rule (.method true)), opt (token ";")],
        seq [field "member" plainField, rule .semicolon]]
  node "class_body" (seq [token "\x7b", many member, token "\x7d"])

/-! ## Statements -/

/-- A loop over the members of a value. -/
def forIn (d : Dialect) : F :=
  let bound := field "left" (choice [binder d, rule .destructuring])
  node "for_in_statement" (seq [keyword "for", opt (keyword "await"), token "(",
    choice [
      seq [field "kind" (keyword "var"), bound, opt (initializer .inner),
        ahead (choice [keyword "in", keyword "of"])],
      seq [field "kind" (choice [keyword "let", keyword "const", keyword "using",
          seq [keyword "await", keyword "using"]]), bound,
        ahead (choice [keyword "in", keyword "of"])],
      field "left" (choice [rule .destructuring, rule .parenthesized, target])],
    field "operator" (choice [keyword "in", keyword "of"]),
    field "right" (rule (.expressions .inner)), token ")", field "body" (rule .statement)])

/-- A loop with a counter. -/
def forLoop : F :=
  let empty := node "empty_statement" (token ";")
  node "for_statement" (seq [keyword "for", token "(",
    choice [
      field "initializer" (choice [rule (.lexicalDeclaration true), rule .variableDeclaration]),
      seq [field "initializer" (rule (.expressions .inner)), token ";"],
      field "initializer" empty],
    field "condition" (choice [seq [rule (.expressions .inner), token ";"], empty]),
    opt (field "increment" (rule (.expressions .inner))), token ")",
    field "body" (rule .statement)])

/-- A choice between cases. -/
def switchStatement : F :=
  let body := field "body" (many (rule .statement))
  node "switch_statement" (seq [keyword "switch", field "value" (rule .parenthesized),
    field "body" (node "switch_body" (seq [token "\x7b",
      many (choice [
        node "switch_case" (seq [keyword "case", field "value" (rule (.expressions .inner)),
          token ":", body]),
        node "switch_default" (seq [keyword "default", token ":", body])]),
      token "\x7d"]))])

/-- A guarded block. -/
def tryStatement (d : Dialect) : F :=
  let caught := seq [token "(", field "parameter" (choice [binder d, rule .destructuring]),
    if d.typed then opt (field "type" (rule (.statedType .inner))) else nothing, token ")"]
  node "try_statement" (seq [keyword "try", field "body" (rule (.block false)),
    opt (field "handler" (node "catch_clause"
      (seq [keyword "catch", opt caught, field "body" (rule (.block false))]))),
    opt (field "finalizer" (node "finally_clause"
      (seq [keyword "finally", field "body" (rule (.block false))])))])

/-- A jump, possibly to a label. -/
def jump (kind text : String) : F :=
  node kind (seq [keyword text,
    opt (seq [without inserted, field "label" (word "statement_identifier" reservedWords)]),
    rule .semicolon])

/-- A statement. -/
def statementForm (d : Dialect) : F :=
  let starters := if d.typed then ["interface", "enum", "abstract"] else []
  seq [blanks, choice [
    lexeme "html_comment" Lexeme.markupComment,
    rule .exportStatement,
    rule .importStatement,
    rule .declaration,
    rule (.block false),
    node "if_statement" (seq [keyword "if", field "condition" (rule .parenthesized),
      field "consequence" (rule .statement),
      opt (field "alternative" (node "else_clause" (seq [keyword "else", rule .statement])))]),
    switchStatement,
    forIn d,
    forLoop,
    node "while_statement" (seq [keyword "while", field "condition" (rule .parenthesized),
      field "body" (rule .statement)]),
    node "do_statement" (seq [keyword "do", field "body" (rule .statement), keyword "while",
      field "condition" (rule .parenthesized), opt (rule .semicolon)]),
    tryStatement d,
    node "with_statement" (seq [keyword "with", field "object" (rule .parenthesized),
      field "body" (rule .statement)]),
    jump "break_statement" "break",
    jump "continue_statement" "continue",
    node "debugger_statement" (seq [keyword "debugger", rule .semicolon]),
    node "return_statement" (seq [keyword "return",
      opt (seq [without inserted, rule (.expressions .ending)]), rule .semicolon]),
    node "throw_statement" (seq [keyword "throw", rule (.expressions .ending), rule .semicolon]),
    node "empty_statement" (token ";"),
    node "labeled_statement" (seq [
      field "label" (word "statement_identifier" reservedWords), token ":",
      field "body" (rule .statement)]),
    node "expression_statement" (seq [
      without (choice (seq [keyword "let", token "["] :: starters.map keyword)),
      rule (.expressions .ending), rule .semicolon])]]

/-- A whole source. -/
def program : F :=
  seq [opt (lexeme "hash_bang_line" Lexeme.hashBang), many (rule .statement), blanks]

end CodeGraph.Grammar
