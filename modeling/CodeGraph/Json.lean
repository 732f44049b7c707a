import CodeGraph.Table

/-!
# JSON values

Values of the data format in which records are exchanged. A number with a point or an exponent is
kept apart from an integer, as its digits and the power of ten they are scaled by.
-/

namespace CodeGraph

/-- A JSON value. The members of an object keep their order. -/
inductive Json where
  | null
  | bool (b : Bool)
  | int (n : Int)
  /-- A number with a point or an exponent: its digits, times a power of ten. -/
  | decimal (digits : Int) (exponent : Int)
  /-- One of the words for what is no finite number. -/
  | infinite (word : String)
  | string (s : String)
  | array (items : List Json)
  | object (members : List (String × Json))
  deriving Repr

namespace Json

/-- The member of an object under a name. -/
def member? (j : Json) (name : String) : Option Json :=
  match j with
  | object members => Table.get? members name
  | _ => none

/-- A list of texts. -/
def strings (texts : List String) : Json :=
  array (texts.map string)

/-- A value or null. -/
def ofOption {α : Type} (f : α → Json) : Option α → Json
  | some a => f a
  | none => null

/-- A list of values. -/
def ofList {α : Type} (f : α → Json) (items : List α) : Json :=
  array (items.map f)

end Json

end CodeGraph
