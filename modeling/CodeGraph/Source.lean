import CodeGraph.Path
import CodeGraph.Syntax.Semicolon
import CodeGraph.Syntax.Walk
import CodeGraph.Text.Lowercase
import CodeGraph.Text.Utf8

/-!
# Sources

From the bytes of a file to a syntax tree. The parser is passed in, and the grammar it is to use
follows from the file's extension. Two statements that the grammars lack, `export v from "m"` and
`export v, {x} from "m"`, are put into the form of a plain re-export when a source cannot be read
otherwise. A source that cannot be read is kept with the reason.
-/

namespace CodeGraph

/-- What a file is written in. -/
inductive Language where
  | javascript
  | typescript
  | tsx
  | html
  | unknown
  deriving DecidableEq, Repr

namespace Language

/-- The language's name. -/
def name : Language → String
  | javascript => "javascript"
  | typescript => "typescript"
  | tsx => "tsx"
  | html => "html"
  | unknown => "unknown"

/-- The lower-cased extension of a path. -/
def extensionOf (path : String) : String :=
  Lowercase.lower (Path.ext path)

/-- The languages by extension. -/
def byExtension : List (String × Language) :=
  [(".js", javascript), (".jsx", javascript), (".mjs", javascript), (".cjs", javascript),
   (".ts", typescript), (".tsx", tsx), (".html", html), (".htm", html)]

/-- The language of a path. -/
def ofPath (path : String) : Language :=
  (byExtension.lookup (extensionOf path)).getD unknown

/-- The grammar of a language, if there is one. -/
def dialect? : Language → Option Dialect
  | javascript => some .javascript
  | typescript => some .typescript
  | tsx => some .tsx
  | html => none
  | unknown => none

end Language

/-! ## Re-exports of a default -/

namespace Reexport

/-- The line feed. -/
def newline : UInt8 := 10

/-- Blanks within a line. -/
def isBlank (b : UInt8) : Bool :=
  b == 32 || b == 9

/-- Bytes of a plain name. -/
def isWordByte (b : UInt8) : Bool :=
  (48 ≤ b && b ≤ 57) || (65 ≤ b && b ≤ 90) || (97 ≤ b && b ≤ 122) || b == 95

/-- Bytes of a name, the dollar sign included. -/
def isNameByte (b : UInt8) : Bool :=
  isWordByte b || b == 36

/-- The bytes of a text. -/
def bytes (s : String) : Bytes :=
  Utf8.encode s

/-- The rest after this start, if there is one. -/
def dropStart : Bytes → Bytes → Option Bytes
  | [], bs => some bs
  | _ :: _, [] => none
  | t :: ts, b :: bs => if t == b then dropStart ts bs else none

/-- Does one of the words that cannot be re-exported this way stand here? -/
def startsKeyword (bs : Bytes) : Bool :=
  [bytes "default", bytes "from", bytes "type"].any (fun w =>
    match dropStart w bs with
    | some (b :: _) => !isWordByte b
    | some [] => true
    | none => false)

/-- What follows the name: the word `from` and a quote, or a comma and a brace. -/
inductive Tail where
  | source
  | list (rest : Bytes)

/-- Does the word `from` with a quote after it stand here? -/
def isSource (bs : Bytes) : Bool :=
  match dropStart (bytes "from") bs with
  | some rest =>
    match rest.dropWhile isBlank with
    | b :: _ => b == 34 || b == 39
    | [] => false
  | none => false

/-- What follows a name, blanks skipped. -/
def tail? (bs : Bytes) : Option Tail :=
  let bs := bs.dropWhile isBlank
  if isSource bs then some .source
  else
    match bs with
    | 44 :: rest =>
      match rest.dropWhile isBlank with
      | 123 :: rest => some (.list rest)
      | _ => none
    | _ => none

/-- The head of a re-export: everything up to the name. -/
def head? (line : Bytes) : Option (Bytes × Bytes) :=
  let indent := line.takeWhile isBlank
  match dropStart (bytes "export") (line.dropWhile isBlank) with
  | some rest =>
    let gap := rest.takeWhile isBlank
    if gap.isEmpty then none
    else some (indent ++ bytes "export" ++ gap, rest.dropWhile isBlank)
  | none => none

/-- The line with the re-export of a default in its list form. -/
def normalizeLine (line : Bytes) : Bytes :=
  match head? line with
  | none => line
  | some (head, rest) =>
    let word := rest.takeWhile isNameByte
    let after := rest.dropWhile isNameByte
    match word with
    | [] => line
    | first :: _ =>
      if (48 ≤ first && first ≤ 57) || startsKeyword rest then line
      else
        match tail? after with
        | some .source =>
          head ++ bytes "\x7b default as " ++ word ++ bytes " \x7d " ++ after.dropWhile isBlank
        | some (.list tail) => head ++ bytes "\x7b default as " ++ word ++ bytes ", " ++ tail
        | none =>
          -- the name and `from` may be written in one
          let name := word.take (word.length - 4)
          let glued := word.drop (word.length - 4) ++ after
          if name.isEmpty || !isSource glued then line
          else head ++ bytes "\x7b default as " ++ name ++ bytes " \x7d " ++ glued

/-- The lines of a byte string. -/
def splitLines : Bytes → List Bytes
  | [] => [[]]
  | b :: bs =>
    if b == newline then [] :: splitLines bs
    else
      match splitLines bs with
      | [] => [[b]]
      | first :: rest => (b :: first) :: rest

/-- Lines with line feeds between them. -/
def joinLines : List Bytes → Bytes
  | [] => []
  | [line] => line
  | line :: rest => line ++ newline :: joinLines rest

/-- Every re-export of a default in its list form. -/
def normalize (data : Bytes) : Bytes :=
  joinLines ((splitLines data).map normalizeLine)

end Reexport

/-! ## Reading a source -/

/-- A source with its syntax tree. -/
structure Module where
  path : String
  /-- The text of the file. -/
  text : String
  language : Language
  /-- The bytes that the tree's offsets refer to. -/
  source : Bytes
  root : Node

namespace Module

/-- The text of a byte range of the source. -/
def slice (m : Module) (start stop : Nat) : String :=
  Utf8.decodeLossy ((m.source.drop start).take (stop - start))

/-- The text of a node. -/
def textOf (m : Module) (n : Node) : String :=
  m.slice n.start n.stop

/-- The text of the first child under a field. -/
def fieldText? (m : Module) (n : Node) (name : String) : Option String :=
  (n.field? name).map m.textOf

/-- The number of the line that holds an offset, counted from one. -/
def lineAt (m : Module) (offset : Nat) : Nat :=
  (m.source.take offset).count Reexport.newline + 1

/-- The line a node starts on. -/
def startLine (m : Module) (n : Node) : Nat :=
  m.lineAt n.start

/-- The line a node ends on. -/
def endLine (m : Module) (n : Node) : Nat :=
  m.lineAt n.stop

end Module

/-- Why a source has no tree. -/
inductive Obstacle where
  | undecodable (error : Utf8.DecodeError)
  | noGrammar (language : Language)
  | syntaxError
  deriving DecidableEq, Repr

/-- The wording of an obstacle. -/
def Obstacle.message : Obstacle → String
  | .undecodable e => e.message
  | .noGrammar l => "no grammar for " ++ l.name
  | .syntaxError => "syntax error"

/-- A source without a tree. -/
structure Unparseable where
  path : String
  text : String
  obstacle : Obstacle

/-- A parser gives the syntax tree of a text in a dialect, if the text has one. -/
abbrev Parser := Dialect → List Char → Option Node

/-- Read the bytes of a file with the grammar that its path implies. -/
def parseSource (parser : Parser) (path : String) (data : Bytes) : Except Unparseable Module :=
  match Utf8.decode data with
  | .error e => .error ⟨path, Utf8.decodeLossy data, .undecodable e⟩
  | .ok text =>
    let language := Language.ofPath path
    match language.dialect? with
    | none => .error ⟨path, text, .noGrammar language⟩
    | some dialect =>
      match parser dialect text.toList with
      | some root => .ok ⟨path, text, language, data, root⟩
      | none =>
        let normalized := Reexport.normalize data
        if normalized == data then .error ⟨path, text, .syntaxError⟩
        else
          match parser dialect (Utf8.decodeLossy normalized).toList with
          | some root => .ok ⟨path, text, language, normalized, root⟩
          | none => .error ⟨path, text, .syntaxError⟩

end CodeGraph
