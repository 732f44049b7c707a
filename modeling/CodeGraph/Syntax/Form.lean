import CodeGraph.Syntax.Node
import CodeGraph.Syntax.Semicolon

/-!
# Grammar forms

A grammar is data: each of its rules stands for a *form*, and `Form.read` reads a form off the
source. Choices are ordered and a repetition takes all it can, so a form has at most one reading
at each place. Blanks and comments may stand before every token; a comment becomes a child of the
innermost node that has begun and not yet ended.

The first argument of `Form.read` bounds the depth of the reading, which makes it total.
-/

namespace CodeGraph

/-- The right-hand sides of grammar rules, over the names `R` of the rules. -/
inductive Form (R : Type) where
  /-- Nothing at all. -/
  | nothing
  /-- Punctuation with this spelling. -/
  | token (text : String)
  /-- Punctuation with this spelling, as a named node. -/
  | tokenNode (kind text : String)
  /-- Punctuation that must follow at once, without blanks. -/
  | tokenHere (text : String)
  /-- The longest operator ahead, if it is one of these. -/
  | operator (texts : List String)
  /-- The question mark of a conditional expression. -/
  | question
  /-- A word with this spelling. -/
  | keyword (text : String)
  /-- A word with this spelling, as a named node. -/
  | keywordNode (kind text : String)
  /-- Any word but these, as a named node. -/
  | word (kind : String) (except : List String)
  /-- A lexeme, as a named node. -/
  | lexeme (kind : String) (scan : List Char → Lexeme.Scan)
  /-- A lexeme that must follow at once, without blanks. -/
  | lexemeHere (kind : String) (scan : List Char → Lexeme.Scan)
  /-- A node around what the body reads. -/
  | node (kind : String) (body : Form R)
  /-- A node around the node just read and what the body reads, if that node is of one of the
  given kinds (of any kind when none is given); it then hangs under the given field. -/
  | wrap (kind : String) (field : Option String) (kinds : List String) (body : Form R)
  /-- The body's nodes hang under a field. -/
  | field (name : String) (body : Form R)
  /-- All parts, one after the other. -/
  | seq (parts : List (Form R))
  /-- The first part that can be read. -/
  | choice (parts : List (Form R))
  /-- As often as possible. -/
  | many (body : Form R)
  /-- Once or not at all. -/
  | opt (body : Form R)
  /-- The body can be read here; nothing is taken. -/
  | ahead (body : Form R)
  /-- The body cannot be read here; nothing is taken. -/
  | without (body : Form R)
  /-- The node just read is of one of these kinds. -/
  | lastIs (kinds : List String)
  /-- Blanks and comments. -/
  | blanks
  /-- State whether an operand has just ended. -/
  | operandEnds (value : Bool)
  /-- An inserted semicolon; comments before it belong to the open node. -/
  | inserted
  /-- No semicolon is inserted here, an operand having ended. -/
  | goesOn
  /-- The form of a rule. -/
  | rule (name : R)

/-- Where a reading stands. -/
structure Reading where
  /-- The characters still to read. -/
  rest : List Char
  /-- The byte offset of the first of them. -/
  offset : Nat
  /-- Where the last token or comment ended. -/
  last : Nat
  /-- Has an operand just ended? -/
  operand : Bool
  /-- The children of the open node read so far, latest first. -/
  out : List Node

namespace Reading

/-- The number of bytes of a character list. -/
def width (cs : List Char) : Nat :=
  cs.foldl (fun n c => n + c.utf8Size) 0

/-- Take characters as a leaf of the open node. -/
def take (s : Reading) (kind : String) (named : Bool) (taken rest : List Char) : Reading :=
  let stop := s.offset + width taken
  { rest := rest, offset := stop, last := stop, operand := false
    out := ⟨kind, named, none, s.offset, stop, []⟩ :: s.out }

/-- Take a comment, which changes nothing else. -/
def takeComment (s : Reading) (taken rest : List Char) : Reading :=
  { s.take "comment" true taken rest with operand := s.operand }

/-- Step over blanks. -/
def skipBlanks (s : Reading) : Reading :=
  { s with
    rest := s.rest.dropWhile Lexeme.isBlank
    offset := s.offset + width (s.rest.takeWhile Lexeme.isBlank) }

theorem skipBlanks_length (s : Reading) : s.skipBlanks.rest.length ≤ s.rest.length :=
  Lexeme.length_dropWhile_le _ _

/-- Step over blanks and comments. -/
def skip (s : Reading) : Reading :=
  match _h : Lexeme.comment s.skipBlanks.rest with
  | some (taken, rest) => skip (s.skipBlanks.takeComment taken rest)
  | none => s.skipBlanks
termination_by s.rest.length
decreasing_by
  have h1 := Lexeme.comment_length (by assumption)
  have h2 := s.skipBlanks_length
  simp only [takeComment, take]
  omega

/-- Take this spelling here. -/
def takeText (s : Reading) (kind : String) (named : Bool) (text : String) : Option Reading :=
  (Lexeme.literal text.toList s.rest).map (fun r => s.take kind named r.1 r.2)

/-- Take a lexeme here. -/
def takeScan (s : Reading) (kind : String) (scan : List Char → Lexeme.Scan) : Option Reading :=
  (scan s.rest).map (fun r => s.take kind true r.1 r.2)

/-- Take a word if it passes a test. -/
def takeWord (s : Reading) (kind : String) (named : Bool) (ok : String → Bool) :
    Option Reading :=
  match Lexeme.word s.rest with
  | some (taken, rest) =>
    if ok (String.ofList taken) then some (s.take kind named taken rest) else none
  | none => none

/-- Take an operator if it is one of these. -/
def takeOperator (s : Reading) (texts : List String) : Option Reading :=
  match Lexeme.operator s.rest with
  | some (taken, rest) =>
    let text := String.ofList taken
    if texts.contains text then some (s.take text false taken rest) else none
  | none => none

/-- An inserted semicolon, possibly after comments. -/
def insert (d : Dialect) (operand : Bool) (s : Reading) : Option Reading :=
  if Semicolon.inserted d operand s.rest then some s
  else
    match _h : Lexeme.comment s.skipBlanks.rest with
    | some (taken, rest) => insert d operand (s.skipBlanks.takeComment taken rest)
    | none => none
termination_by s.rest.length
decreasing_by
  have h1 := Lexeme.comment_length (by assumption)
  have h2 := s.skipBlanks_length
  simp only [takeComment, take]
  omega

/-- Is this a comment? Comments hang under no field. -/
def isComment (n : Node) : Bool :=
  n.kind == "comment" || n.kind == "html_comment"

/-- Close a node around the children read since it began. -/
def close (kind : String) (start : Nat) (below : List Node) (s : Reading) : Reading :=
  let stop := if s.out.isEmpty then start else s.last
  { s with out := ⟨kind, true, none, start, stop, s.out.reverse⟩ :: below }

/-- Hang the nodes read since a field began under it. -/
def closeField (name : String) (below : List Node) (s : Reading) : Reading :=
  let hang := fun n : Node =>
    if n.field.isSome || isComment n then n else n.withField (some name)
  { s with out := s.out.map hang ++ below }

end Reading

namespace Form

variable {R : Type}

/-- Read a form. The number bounds the depth of the reading. -/
def read (d : Dialect) (rules : R → Form R) : Nat → Form R → Reading → Option Reading
  | 0, _, _ => none
  | n + 1, form, s =>
    match form with
    | nothing => some s
    | token text => s.skip.takeText text false text
    | tokenNode kind text => s.skip.takeText kind true text
    | tokenHere text => s.takeText text false text
    | operator texts => s.skip.takeOperator texts
    | question =>
      let s := s.skip
      (Lexeme.questionMark s.rest).map (fun r => s.take "?" false r.1 r.2)
    | keyword text => s.skip.takeWord text false (· == text)
    | keywordNode kind text => s.skip.takeWord kind true (· == text)
    | word kind except => s.skip.takeWord kind true (fun w => !except.contains w)
    | lexeme kind scan => s.skip.takeScan kind scan
    | lexemeHere kind scan => s.takeScan kind scan
    | node kind body =>
      let s := s.skip
      (read d rules n body { s with out := [] }).map (Reading.close kind s.offset s.out)
    | wrap kind name kinds body =>
      match s.out with
      | left :: below =>
        if kinds.isEmpty || kinds.contains left.kind then
          (read d rules n body { s with out := [left.withField name] }).map
            (Reading.close kind left.start below)
        else none
      | [] => none
    | field name body =>
      (read d rules n body { s with out := [] }).map (Reading.closeField name s.out)
    | seq parts => parts.foldlM (fun s part => read d rules n part s) s
    | choice parts => parts.findSome? (fun part => read d rules n part s)
    | many body =>
      match read d rules n body s with
      | some s' => if s.offset < s'.offset then read d rules n (many body) s' else some s
      | none => some s
    | opt body => (read d rules n body s).or (some s)
    | ahead body => (read d rules n body s).map (fun _ => s)
    | without body => if (read d rules n body s).isSome then none else some s
    | lastIs kinds =>
      match s.out with
      | last :: _ => if kinds.contains last.kind then some s else none
      | [] => none
    | blanks => some s.skip
    | operandEnds value => some { s with operand := value }
    | inserted => s.insert d s.operand
    | goesOn => if (s.insert d true).isSome then none else some s
    | rule name => read d rules n (rules name) s

end Form

end CodeGraph
