import CodeGraph.Json

/-!
# Checking values

Reading a typed value out of JSON. All defects are collected, each with the place where it was
found and in the order of the fields. Numbers and truth values may be given by another value that
says the same.
-/

namespace CodeGraph

/-- What is wrong with a value. -/
inductive DefectKind where
  | missing
  | notText
  | notChoice
  | notInteger
  | unreadableInteger
  | fractional
  | infinite
  | oversized
  | notTruth
  | unreadableTruth
  | notList
  | notRecord
  | notBody
  deriving DecidableEq, Repr

/-- The word for a defect. -/
def DefectKind.text : DefectKind → String
  | missing => "missing"
  | notText => "string_type"
  | notChoice => "literal_error"
  | notInteger => "int_type"
  | unreadableInteger => "int_parsing"
  | fractional => "int_from_float"
  | infinite => "finite_number"
  | oversized => "int_parsing_size"
  | notTruth => "bool_type"
  | unreadableTruth => "bool_parsing"
  | notList => "list_type"
  | notRecord => "model_type"
  | notBody => "model_attributes_type"

/-- A step into a value. -/
inductive Place where
  | field (name : String)
  | index (i : Nat)
  deriving DecidableEq, Repr

/-- A defect and the place where it is. -/
structure Defect where
  kind : DefectKind
  place : List Place
  deriving DecidableEq, Repr

/-- A value, or all that is wrong with it. -/
inductive Checked (α : Type) where
  | valid (a : α)
  | faulty (defects : List Defect)
  deriving Repr

namespace Checked

/-- A value with one defect. -/
def defect {α : Type} (kind : DefectKind) : Checked α :=
  faulty [⟨kind, []⟩]

/-- The value read inside a place. -/
def within {α : Type} (place : Place) : Checked α → Checked α
  | valid a => valid a
  | faulty defects => faulty (defects.map (fun d => { d with place := place :: d.place }))

/-- Apply a function to a value. -/
def map {α β : Type} (f : α → β) : Checked α → Checked β
  | valid a => valid (f a)
  | faulty defects => faulty defects

/-- Apply a function to a value; the defects of both sides are kept. -/
def apply {α β : Type} : Checked (α → β) → Checked α → Checked β
  | valid f, valid a => valid (f a)
  | valid _, faulty ds => faulty ds
  | faulty ds, valid _ => faulty ds
  | faulty ds, faulty es => faulty (ds ++ es)

instance : Functor Checked where
  map := map

instance : Applicative Checked where
  pure := valid
  seq f x := apply f (x ())

/-- Check the items of a list, the first of which has this index. -/
def items {α : Type} (check : Json → Checked α) : Nat → List Json → Checked (List α)
  | _, [] => valid []
  | i, j :: rest => List.cons <$> within (.index i) (check j) <*> items check (i + 1) rest

end Checked

/-! ## Values -/

namespace Check

/-- A text. -/
def text : Json → Checked String
  | .string s => .valid s
  | _ => .defect .notText

/-- One of the given choices. -/
def choice {κ : Type} (all : List κ) (spelling : κ → String) (j : Json) : Checked κ :=
  match j with
  | .string s =>
    match all.find? (fun k => spelling k == s) with
    | some k => .valid k
    | none => .defect .notChoice
  | _ => .defect .notChoice

/-- A list. -/
def list {α : Type} (check : Json → Checked α) : Json → Checked (List α)
  | .array items => Checked.items check 0 items
  | _ => .defect .notList

/-- A value or null. -/
def optional {α : Type} (check : Json → Checked α) : Json → Checked (Option α)
  | .null => .valid none
  | j => some <$> check j

/-- Blanks around a number. -/
def isBlank (c : Char) : Bool :=
  let n := c.toNat
  (0x09 ≤ n && n ≤ 0x0D) || n == 0x20 || n == 0x85 || n == 0xA0 || n == 0x1680 ||
    (0x2000 ≤ n && n ≤ 0x200A) || n == 0x2028 || n == 0x2029 || n == 0x202F || n == 0x205F ||
    n == 0x3000

/-- Without blanks at the ends. -/
def trim (cs : List Char) : List Char :=
  ((cs.dropWhile isBlank).reverse.dropWhile isBlank).reverse

/-- Digits that may have single underscores between them, as a number. -/
def digits? : Nat → List Char → Option Nat
  | n, [d] => if d.isDigit then some (10 * n + (d.toNat - 48)) else none
  | n, d :: '_' :: rest => if d.isDigit then digits? (10 * n + (d.toNat - 48)) rest else none
  | n, d :: rest => if d.isDigit then digits? (10 * n + (d.toNat - 48)) rest else none
  | _, [] => none

/-- The sign of a number and what follows it. -/
def sign : List Char → Int × List Char
  | '-' :: rest => (-1, rest)
  | '+' :: rest => (1, rest)
  | cs => (1, cs)

/-- What follows zeros and underscores after a first zero. The last of them is kept when no digit
follows. -/
def afterZeros? (last : Char) : List Char → Option (List Char)
  | [] => some [last]
  | c :: rest =>
    if c == '0' || c == '_' then afterZeros? c rest
    else if c.isDigit then some (c :: rest)
    else if c == '.' then some (last :: c :: rest)
    else none

/-- A number without needless zeros in front. -/
def significant? : List Char → Option (List Char)
  | '0' :: rest => afterZeros? '0' rest
  | c :: rest => if c.isDigit then some (c :: rest) else none
  | [] => none

/-- The integer that a text spells: blanks around it, zeros in front, underscores between its
digits and zeros after a point do not matter. -/
def integerText? (s : String) : Option Int := do
  let (sign, cs) := sign (trim s.toList)
  let cs ← significant? cs
  let whole := cs.takeWhile (· != '.')
  let zeros := (cs.dropWhile (· != '.')).drop 1
  if zeros.all (· == '0') then (digits? 0 whole).map (sign * ·) else none

/-- The most bytes that the text of an integer can have. -/
def longest : Nat := 4300

/-- The double nearest to a decimal number. -/
def double (digits exponent : Int) : Float :=
  let size := Float.ofScientific digits.natAbs (exponent < 0) exponent.natAbs
  if digits < 0 then -size else size

/-- The largest size of an integer given by a double. -/
def largest : Float := 9223372036854775808.0

/-- The integer that a double is. -/
def integerOfDouble (x : Float) : Checked Int :=
  if x.isNaN || x.isInf then .defect .infinite
  else if x.floor != x then .defect .fractional
  else if -largest < x && x < largest then .valid x.toInt64.toInt
  else .defect .oversized

/-- An integer, or a value that stands for one. -/
def integer : Json → Checked Int
  | .int n => .valid n
  | .bool b => .valid (if b then 1 else 0)
  | .decimal digits exponent => integerOfDouble (double digits exponent)
  | .infinite _ => .defect .infinite
  | .string s =>
    if (String.ofList (trim s.toList)).utf8ByteSize > longest then .defect .oversized
    else
      match integerText? s with
      | some n => .valid n
      | none => .defect .unreadableInteger
  | _ => .defect .notInteger

/-- Words for the truth values. -/
def truthWords : List (String × Bool) :=
  [("0", false), ("off", false), ("f", false), ("false", false), ("n", false), ("no", false),
   ("1", true), ("on", true), ("t", true), ("true", true), ("y", true), ("yes", true)]

/-- The truth value that an integer stands for. -/
def truthOfInteger (n : Int) : Checked Bool :=
  if n == 0 then .valid false else if n == 1 then .valid true else .defect .unreadableTruth

/-- Does an integer fit in a signed word of 64 bits? -/
def isWord (n : Int) : Bool :=
  -9223372036854775808 ≤ n && n ≤ 9223372036854775807

/-- A truth value, or a value that stands for one. -/
def truth : Json → Checked Bool
  | .bool b => .valid b
  | .int n => if isWord n then truthOfInteger n else .defect .notTruth
  | .decimal digits exponent =>
    match integerOfDouble (double digits exponent) with
    | .valid n => truthOfInteger n
    | .faulty _ => .defect .notTruth
  | .string s =>
    match truthWords.lookup (String.ofList (s.toList.map Char.toLower)) with
    | some b => .valid b
    | none => .defect .unreadableTruth
  | _ => .defect .notTruth

/-! ## Fields -/

/-- A field that has to be there. -/
def field {α : Type} (j : Json) (name : String) (check : Json → Checked α) : Checked α :=
  Checked.within (.field name)
    (match j.member? name with
      | some v => check v
      | none => .defect .missing)

/-- A field with a default. -/
def fieldOr {α : Type} (j : Json) (name : String) (default : α) (check : Json → Checked α) :
    Checked α :=
  match j.member? name with
  | some v => Checked.within (.field name) (check v)
  | none => .valid default

/-- A field that may be null or missing. -/
def fieldOption {α : Type} (j : Json) (name : String) (check : Json → Checked α) :
    Checked (Option α) :=
  fieldOr j name none (optional check)

/-- A list of items that may be missing. -/
def fieldList {α : Type} (j : Json) (name : String) (check : Json → Checked α) :
    Checked (List α) :=
  fieldOr j name [] (list check)

/-- A record: anything but an object is refused. -/
def record {α : Type} (check : Json → Checked α) (j : Json) : Checked α :=
  match j with
  | .object _ => check j
  | _ => .defect .notRecord

end Check

end CodeGraph
