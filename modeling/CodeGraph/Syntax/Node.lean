/-!
# Syntax trees

A node of a concrete syntax tree: its kind, whether it is named (punctuation and keywords are
not), the field under which it hangs in its parent, its byte range and its children. Trees may
come from the parser or be given as data, so nothing is assumed about the shape.
-/

namespace CodeGraph

/-- A node of a concrete syntax tree. -/
structure Node where
  kind : String
  named : Bool
  field : Option String
  start : Nat
  stop : Nat
  children : List Node

namespace Node

/-- The position among the children of the first one that hangs under a field. -/
def fieldIndex? (n : Node) (name : String) : Option Nat :=
  n.children.findIdx? (fun c => c.field == some name)

/-- The first child, named or not, that hangs under a field. -/
def field? (n : Node) (name : String) : Option Node :=
  n.children.find? (fun c => c.field == some name)

/-- The named children, in order. -/
def namedChildren (n : Node) : List Node :=
  n.children.filter (·.named)

/-- Does the node have an unnamed child of this spelling? -/
def hasToken (n : Node) (token : String) : Bool :=
  n.children.any (fun c => !c.named && c.kind == token)

/-- The same node under another field. -/
def withField (n : Node) (name : Option String) : Node :=
  { n with field := name }

end Node

end CodeGraph
