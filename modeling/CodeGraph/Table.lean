/-!
# Tables

Keys with a value each, in the order in which the keys first came. Setting a known key replaces
its value in place. Beside them stands the sorted list of distinct texts.
-/

namespace CodeGraph

/-- Keys with their values, in the order of first arrival. -/
abbrev Table (κ : Type) (α : Type) := List (κ × α)

namespace Table

variable {κ α : Type} [BEq κ]

/-- The value of a key. -/
def get? : Table κ α → κ → Option α
  | [], _ => none
  | (k, v) :: rest, key => if k == key then some v else get? rest key

/-- Give a key a value: in place if the key is known, at the end if not. -/
def set : Table κ α → κ → α → Table κ α
  | [], key, value => [(key, value)]
  | (k, v) :: rest, key, value =>
    if k == key then (k, value) :: rest else (k, v) :: set rest key value

/-- Change the value of a key, starting from a default if the key is new. -/
def update : Table κ α → κ → α → (α → α) → Table κ α
  | [], key, default, f => [(key, f default)]
  | (k, v) :: rest, key, default, f =>
    if k == key then (k, f v) :: rest else (k, v) :: update rest key default f

/-- Is the key known? -/
def contains (t : Table κ α) (key : κ) : Bool :=
  (t.get? key).isSome

omit [BEq κ] in
/-- The keys, in order. -/
def keys (t : Table κ α) : List κ :=
  t.map (·.1)

omit [BEq κ] in
/-- The values, in order. -/
def values (t : Table κ α) : List α :=
  t.map (·.2)

end Table

/-! ## Sorted names -/

namespace Sorted

/-- Put a text where it belongs, unless it is there already. -/
def insert (s : String) : List String → List String
  | [] => [s]
  | t :: rest =>
    if s < t then s :: t :: rest
    else if s == t then t :: rest
    else t :: insert s rest

/-- The distinct texts of a list, in order of their characters. -/
def distinct (texts : List String) : List String :=
  texts.foldr insert []

end Sorted

end CodeGraph
