import CodeGraph.Syntax.Form

/-!
# Rules of the grammar

The names of the rules, the modes an expression or type is read in, and the small forms that all
families of rules share.
-/

namespace CodeGraph.Grammar

/-- How an expression or type is read, which depends on where it stands. -/
structure Mode where
  /-- May a line end close the statement right after it? -/
  line : Bool
  /-- May it end in type arguments that no call follows? -/
  instantiate : Bool
  /-- May an arrow function in it state its return type? -/
  returnType : Bool

/-- At the end of a statement. -/
def Mode.ending : Mode := ⟨true, true, true⟩

/-- Between brackets. -/
def Mode.inner : Mode := ⟨false, true, true⟩

/-- After `extends`, where type arguments belong to the clause. -/
def Mode.heritage : Mode := ⟨false, false, true⟩

/-- Between the marks of a conditional, where a colon may end an operand. -/
def Mode.branch : Mode := ⟨false, true, false⟩

/-- The rules. -/
inductive Rule where
  -- statements
  | statement
  | declaration
  | exportStatement
  | importStatement
  | block (operand : Bool)
  | classBody
  | semicolon
  | lexicalDeclaration (header : Bool)
  | variableDeclaration
  -- expressions
  | expressions (m : Mode)
  | expression (m : Mode)
  | binary (level : Nat) (m : Mode)
  | operand (m : Mode)
  | postfixed (m : Mode)
  | primary (m : Mode)
  | newExpression
  | arguments
  | parenthesized
  | object
  | array
  | string
  | template
  | decorator
  | propertyName
  | method (classMember : Bool)
  -- patterns and parameters
  | pattern
  | destructuring
  | parameters
  | signature (returnType : Bool)
  -- elements
  | element
  -- types
  | type (m : Mode)
  | union (m : Mode)
  | intersection (m : Mode)
  | typeOperand (m : Mode)
  | primaryType (m : Mode)
  | typeArguments
  | typeParameters
  | objectType (kind : String)
  | statedType (m : Mode)

/-- Forms over the rules of this grammar. -/
abbrev F := Form Rule

open Form

/-- One part, then any number of times a comma and another part. -/
def list1 (part : F) : F :=
  seq [part, many (seq [token ",", part])]

/-- Parts between commas, any of which may be left out. -/
def holes (part : F) : F :=
  seq [opt part, many (seq [token ",", opt part])]

/-- Parts between commas, with an optional last comma. -/
def list (part : F) : F :=
  seq [opt (list1 part), opt (token ",")]

/-- No semicolon is inserted here, where one could be. -/
def stays (m : Mode) : F :=
  if m.line then goesOn else nothing

/-- Words that are never names. -/
def reservedWords : List String :=
  ["break", "case", "catch", "class", "const", "continue", "debugger", "default", "delete", "do",
   "else", "export", "extends", "false", "finally", "for", "function", "if", "import", "in",
   "instanceof", "new", "null", "return", "super", "switch", "this", "throw", "true", "try",
   "typeof", "var", "void", "while", "with"]

/-- A name that is used. -/
def name : F :=
  word "identifier" reservedWords

/-- A name that is introduced. With type syntax every word can be one. -/
def binder (d : Dialect) : F :=
  word "identifier" (if d.typed then [] else reservedWords)

/-- The name of a type. -/
def typeName : F :=
  word "type_identifier" reservedWords

/-- The name of a class, which is a type where there are types. -/
def className (d : Dialect) : F :=
  if d.typed then word "type_identifier" ["extends", "implements"] else name

/-- Types known by a word. -/
def predefined : F :=
  node "predefined_type" (choice [
    seq [keyword "unique", keyword "symbol"],
    keyword "any", keyword "number", keyword "boolean", keyword "string", keyword "symbol",
    keyword "void", keyword "unknown", keyword "never", keyword "object"])

/-- The value given at a declaration. -/
def initializer (m : Mode) : F :=
  seq [operator ["="], field "value" (rule (.expression m))]

/-- Decorators under their field. -/
def decorators : F :=
  many (field "decorator" (rule .decorator))

/-- A word that modifies the name after it. It is a name itself when nothing that can be named
follows, or when a semicolon is inserted after it. -/
def modifier (member : Bool) (text : F) : F :=
  seq [text,
    without (choice [token "(", operator ["=", "!", "?", "<"], token ";", token "\x7d",
      token ",", token ":"]),
    if member then without inserted else nothing]

end CodeGraph.Grammar
