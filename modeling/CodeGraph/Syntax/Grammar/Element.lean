import CodeGraph.Syntax.Grammar.Expression

/-!
# Elements

Tags in expressions. Opening and closing tags need not agree.
-/

namespace CodeGraph.Grammar

open Form

/-- A tag or attribute name, which may have hyphens. -/
def tagWord (kind : String) : F :=
  choice [lexeme kind Lexeme.hyphenated, word kind []]

/-- A name with a namespace. -/
def namespaced : F :=
  node "jsx_namespace_name"
    (seq [tagWord "identifier", token ":", tagWord "identifier"])

/-- A name made of several by points. -/
def dotted : F :=
  let step := wrap "member_expression" (some "object") []
    (seq [token ".", field "property" (word "property_identifier" [])])
  seq [word "identifier" [], step, many step]

/-- The name of an element. -/
def elementName : F :=
  choice [namespaced, dotted, tagWord "identifier"]

/-- An expression in braces, possibly empty. -/
def container : F :=
  node "jsx_expression" (seq [token "\x7b", opt (choice [spread, rule (.expressions .inner)]),
    token "\x7d"])

/-- A quoted attribute value, in which escapes are not known. -/
def attributeString (quote : Char) : F :=
  let mark := String.ofList [quote]
  node "string" (seq [token mark,
    many (choice [lexemeHere "string_fragment" (Lexeme.attributeFragment quote),
      lexemeHere "html_character_reference" Lexeme.characterReference]),
    tokenHere mark])

/-- An attribute. -/
def tagAttribute : F :=
  node "jsx_attribute" (seq [choice [namespaced, tagWord "property_identifier"],
    opt (seq [token "=", choice [attributeString '"', attributeString '\'', container,
      rule .element]])])

/-- Attributes under their field. -/
def attributes : F :=
  many (field "attribute" (choice [container, tagAttribute]))

/-- The inside of a tag: its name, type arguments where there are types, and attributes. -/
def tagBody (d : Dialect) : F :=
  seq [field "name" elementName,
    if d.typed then opt (field "type_arguments" (rule .typeArguments)) else nothing,
    attributes]

/-- What may stand between tags. -/
def child : F :=
  choice [lexemeHere "jsx_text" Lexeme.markupText,
    lexeme "html_character_reference" Lexeme.characterReference,
    seq [without (token "</"), rule .element], container]

/-- An element with its content, or one that closes itself. -/
def elementForm (d : Dialect) : F :=
  choice [
    node "jsx_self_closing_element" (seq [token "<", tagBody d, token "/>"]),
    node "jsx_element" (seq [
      field "open_tag" (node "jsx_opening_element"
        (seq [token "<", opt (tagBody d), token ">"])),
      many child,
      field "close_tag" (node "jsx_closing_element"
        (seq [token "</", opt (field "name" elementName), token ">"]))])]

end CodeGraph.Grammar
