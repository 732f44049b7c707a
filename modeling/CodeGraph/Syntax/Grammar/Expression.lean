import CodeGraph.Syntax.Grammar.Pattern

/-!
# Expressions

Operators bind as their level says, from `??` (the loosest) to `**`. An assignment can stand
wherever an operand can, and takes everything to its right.
-/

namespace CodeGraph.Grammar

open Form

/-! ## Literals -/

/-- A string in one kind of quote. -/
def quoted (quote : Char) : F :=
  let mark := String.ofList [quote]
  node "string" (seq [token mark,
    many (choice [lexemeHere "string_fragment" (Lexeme.stringFragment quote),
      lexemeHere "escape_sequence" Lexeme.escape]),
    tokenHere mark])

/-- A string. -/
def stringForm : F :=
  choice [quoted '"', quoted '\'']

/-- A template with substitutions. -/
def templateForm : F :=
  node "template_string" (seq [token "`",
    many (choice [lexemeHere "string_fragment" Lexeme.templateChars,
      lexemeHere "escape_sequence" Lexeme.escape,
      node "template_substitution"
        (seq [tokenHere "$\x7b", rule (.expressions .inner), token "\x7d"])]),
    tokenHere "`"])

/-- A regular expression. -/
def regexForm : F :=
  node "regex" (seq [token "/", field "pattern" (lexemeHere "regex_pattern" Lexeme.regexPattern),
    tokenHere "/", opt (field "flags" (lexemeHere "regex_flags" Lexeme.regexFlags))])

/-- A number. -/
def numberForm : F :=
  lexeme "number" Lexeme.number

/-! ## Objects, arrays, arguments -/

/-- The name of a property. -/
def propertyNameForm : F :=
  choice [word "property_identifier" [],
    lexeme "private_property_identifier" Lexeme.privateWord,
    rule .string, numberForm,
    node "computed_property_name" (seq [token "[", rule (.expression .inner), token "]"])]

/-- An element that spreads into several. -/
def spread : F :=
  node "spread_element" (seq [token "...", rule (.expression .inner)])

/-- An object literal. -/
def objectForm (d : Dialect) : F :=
  node "object" (seq [token "\x7b",
    holes (choice [
      spread,
      node "pair" (seq [field "key" (rule .propertyName), token ":",
        field "value" (rule (.expression .inner))]),
      rule (.method false),
      word "shorthand_property_identifier" (if d.typed then [] else reservedWords)]),
    token "\x7d"])

/-- An array literal. -/
def arrayForm : F :=
  node "array" (seq [token "[", holes (choice [spread, rule (.expression .inner)]), token "]"])

/-- The arguments of a call. -/
def argumentsForm : F :=
  node "arguments" (seq [token "(", holes (choice [spread, rule (.expression .inner)]),
    token ")"])

/-- An object or array literal, or a pattern when it is assigned to. -/
def bracketed (literal : F) : F :=
  choice [seq [literal, without (operator ["="])],
    seq [rule .destructuring, ahead (operator ["="])]]

/-- An expression in parentheses. -/
def parenthesizedForm (d : Dialect) : F :=
  node "parenthesized_expression" (seq [token "(", rule (.expressions .inner),
    if d.typed then opt (field "type" (rule (.statedType .inner))) else nothing,
    token ")"])

/-! ## Functions and classes -/

/-- The word that makes a function asynchronous. -/
def async : F :=
  seq [keyword "async", goesOn]

/-- A function or generator without the restrictions of a declaration. -/
def functionExpression (d : Dialect) (kind : String) (star : F) : F :=
  node kind (seq [opt async, keyword "function", star, opt (field "name" (binder d)),
    rule (.signature true), field "body" (rule (.block true))])

/-- An arrow function. A word that is a type by itself names no type parameter where a cast could
begin. -/
def arrow (d : Dialect) (m : Mode) : F :=
  let body := seq [token "=>",
    field "body" (choice [rule (.block true), rule (.expression m)])]
  let single := seq [field "parameter" (word "identifier"
    (if d.typed then "undefined" :: reservedWords else reservedWords)), body]
  let cast := if d.typed && !d.markup then without (seq [token "<", predefined]) else nothing
  let several := seq [cast, rule (.signature m.returnType), body]
  choice [
    node "arrow_function" (seq [async, choice [single, several]]),
    node "arrow_function" (choice [single, several])]

/-- What a class is derived from. -/
def heritage (d : Dialect) : F :=
  let implements := node "implements_clause"
    (seq [keyword "implements", list1 (rule (.type .inner))])
  if d.typed then
    node "class_heritage" (choice [
      seq [node "extends_clause" (seq [keyword "extends",
          list1 (seq [field "value" (rule (.postfixed .heritage)),
            opt (field "type_arguments" (rule .typeArguments))])]),
        opt implements],
      implements])
  else node "class_heritage" (seq [keyword "extends", rule (.expression .inner)])

/-- The part of a class after its name. -/
def classTail (d : Dialect) : F :=
  seq [if d.typed then opt (field "type_parameters" (rule .typeParameters)) else nothing,
    opt (heritage d), field "body" (rule .classBody)]

/-- A class as an expression. -/
def classExpression (d : Dialect) : F :=
  node "class" (seq [decorators, keyword "class", opt (field "name" (className d)),
    classTail d])

/-! ## Operands -/

/-- Construction of an object. -/
def newForm (d : Dialect) : F :=
  let callee := seq [rule (.primary .inner),
    many (choice [memberTail, subscriptTail,
      wrap "call_expression" (some "function") [] (field "arguments" (rule .template))])]
  node "new_expression" (seq [keyword "new",
    field "constructor" (if d.typed then callee else choice [rule .newExpression, callee]),
    if d.typed then opt (field "type_arguments" (rule .typeArguments)) else nothing,
    opt (field "arguments" (rule .arguments))])

/-- A property of the running code itself. -/
def metaProperty : F :=
  node "meta_property" (choice [seq [keyword "new", token ".", keyword "target"],
    seq [keyword "import", token ".", keyword "meta"]])

/-- The loading of a module. -/
def importOperand : F :=
  seq [ahead (seq [keyword "import", choice [token "(", token "."]]),
    keywordNode "import" "import"]

/-- A cast in angle brackets. -/
def typeAssertion (m : Mode) : F :=
  node "type_assertion" (seq [rule .typeArguments, rule (.operand m)])

/-- Names that are operands. `yield` starts an expression of its own. -/
def operandName : F :=
  word "identifier" ("yield" :: reservedWords)

/-- An operand without what may follow it. -/
def primaryForm (d : Dialect) (m : Mode) : F :=
  choice [
    arrow d m,
    rule .parenthesized,
    functionExpression d "function_expression" nothing,
    functionExpression d "generator_function" (token "*"),
    classExpression d,
    metaProperty,
    rule .newExpression,
    importOperand,
    keywordNode "this" "this",
    keywordNode "super" "super",
    keywordNode "true" "true",
    keywordNode "false" "false",
    keywordNode "null" "null",
    keywordNode "undefined" "undefined",
    operandName,
    numberForm,
    rule .string,
    rule .template,
    regexForm,
    bracketed (rule .object),
    bracketed (rule .array),
    if d.markup then rule .element else typeAssertion m,
    seq [lexeme "private_property_identifier" Lexeme.privateWord, ahead (keyword "in")]]

/-- Type arguments that no call follows. They are taken for a comparison when an operand comes
next. -/
def instantiationTail : F :=
  wrap "instantiation_expression" none []
    (seq [field "type_arguments" (rule .typeArguments),
      without (seq [goesOn, choice [
        word "identifier" ["as", "satisfies", "in", "instanceof", "of"],
        numberForm, rule .string, token "`", token "(", token "[", token "\x7b",
        operator ["+", "-", "++", "--", "!", "~", "<"]]])])

/-- What may follow an operand and belongs to it. -/
def operandTail (d : Dialect) (m : Mode) : F :=
  choice ([
    memberTail,
    callTail,
    subscriptTail,
    wrap "call_expression" (some "function") [] (field "arguments" (rule .template)),
    if d.typed then
      wrap "call_expression" (some "function") [] (seq [token "?.",
        opt (field "type_arguments" (rule .typeArguments)),
        field "arguments" (rule .arguments)])
    else
      wrap "call_expression" (some "function") [] (seq [
        field "optional_chain" (tokenNode "optional_chain" "?."),
        field "arguments" (rule .arguments)]),
    wrap "update_expression" (some "argument") []
      (seq [stays m, field "operator" (operator ["++", "--"])])] ++
    if d.typed then
      [wrap "call_expression" (some "function") [] (seq [ahead (operator ["<"]),
        field "type_arguments" (rule .typeArguments), field "arguments" (rule .arguments)])] ++
      if m.instantiate then [seq [ahead (operator ["<"]), instantiationTail]] else []
    else [])

/-- Operators that change what stands at their left. -/
def augmentedOperators : List String :=
  ["+=", "-=", "*=", "/=", "%=", "^=", "&=", "|=", ">>=", ">>>=", "<<=", "**=", "&&=", "||=",
   "??="]

/-- An assignment to the operand just read. -/
def assignmentTail (m : Mode) : F :=
  choice [
    wrap "assignment_expression" (some "left")
      ("parenthesized_expression" :: "object_pattern" :: "array_pattern" :: targetKinds)
      (seq [operator ["="], field "right" (rule (.expression m))]),
    wrap "augmented_assignment_expression" (some "left")
      ("parenthesized_expression" :: targetKinds)
      (seq [field "operator" (operator augmentedOperators),
        field "right" (rule (.expression m))])]

/-- An assignment to a resource that is released at the end of its block. -/
def resourceAssignment (d : Dialect) (m : Mode) : F :=
  node "assignment_expression" (seq [keyword "using",
    field "left" (seq [rule (.primary m), many (operandTail d m)]),
    operator ["="], field "right" (rule (.expression m))])

/-- An operand with all that follows it. With types, `using` is never a name here. -/
def postfixedForm (d : Dialect) (m : Mode) : F :=
  let plain := seq [rule (.primary m), many (operandTail d m), opt (assignmentTail m)]
  if d.typed then choice [resourceAssignment d m, seq [without (keyword "using"), plain]]
  else plain

/-- A cast or check of the expression just read, whatever its operators. -/
def castTail (m : Mode) : F :=
  choice [
    wrap "as_expression" none [] (seq [stays m, keyword "as",
      choice [keyword "const", rule (.type m)]]),
    wrap "satisfies_expression" none [] (seq [stays m, keyword "satisfies",
      rule (.type m)])]

/-- The claim that the expression just read is not null, and what may follow it. -/
def nonNullTail (d : Dialect) (m : Mode) : F :=
  seq [wrap "non_null_expression" none [] (seq [stays m, operator ["!"]]),
    many (operandTail d m), opt (assignmentTail m)]

/-- A unary expression or an operand. -/
def operandForm (d : Dialect) (m : Mode) : F :=
  choice [
    node "unary_expression" (seq [
      field "operator" (choice [operator ["!", "~", "-", "+"], keyword "typeof", keyword "void",
        keyword "delete"]),
      field "argument" (rule (.operand m))]),
    node "update_expression" (seq [field "operator" (operator ["++", "--"]),
      field "argument" (rule (.operand m))]),
    node "await_expression" (seq [keyword "await", stays m, without (operator ["=>"]),
      rule (.operand m),
      if d.typed then many (choice [castTail m, nonNullTail d m]) else nothing]),
    node "yield_expression" (seq [keyword "yield", without (operator ["=>"]),
      choice [seq [operator ["*"], rule (.expression m)],
        opt (seq [stays m, rule (.expression m)])]]),
    rule (.postfixed m)]

/-! ## Operators -/

/-- The binary operators with their levels, loosest first. -/
def binaryLevels : List (Nat × F) :=
  [(1, operator ["??"]),
   (2, operator ["||"]),
   (3, operator ["&&"]),
   (4, operator ["|"]),
   (5, operator ["^"]),
   (6, operator ["&"]),
   (7, operator ["==", "===", "!=", "!=="]),
   (8, choice [operator ["<", "<=", ">", ">="], keyword "instanceof", keyword "in"]),
   (9, operator [">>", ">>>", "<<"]),
   (10, operator ["+", "-"]),
   (11, operator ["*", "/", "%"])]

/-- A binary operator of at least the given level and its right operand. -/
def binaryTails (level : Nat) (m : Mode) : List F :=
  let tail := fun (op : F) (right : Nat) =>
    wrap "binary_expression" (some "left") []
      (seq [field "operator" op, field "right" (rule (.binary right m))])
  (binaryLevels.filter (fun l => level ≤ l.1)).map (fun l => tail l.2 (l.1 + 1)) ++
    [tail (operator ["**"]) 12]

/-- Operands joined by operators of at least the given level. -/
def binaryForm (d : Dialect) (level : Nat) (m : Mode) : F :=
  seq [rule (.operand m),
    many (choice (binaryTails level m ++
      if d.typed && level == 0 then [castTail m, nonNullTail d m] else []))]

/-- An expression. -/
def expressionForm (d : Dialect) (m : Mode) : F :=
  let branches := fun inside : Mode =>
    wrap "ternary_expression" (some "condition") [] (seq [question,
      field "consequence" (rule (.expression inside)), token ":",
      field "alternative" (rule (.expression m))])
  seq [rule (.binary 0 m),
    opt (if d.typed then choice [branches .inner, branches .branch] else branches .inner),
    operandEnds true]

/-- One expression or several between commas. -/
def expressionsForm (m : Mode) : F :=
  seq [rule (.expression m),
    opt (wrap "sequence_expression" none []
      (seq [token ",", rule (.expression m), many (seq [token ",", rule (.expression m)])])),
    operandEnds true]

end CodeGraph.Grammar
