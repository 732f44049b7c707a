/-!
# Paths

Slash-separated paths as texts. Everything here is lexical: no file is looked at. The work is done
on lists of components; a text is cut at its slashes and joined again.
-/

namespace CodeGraph.Path

/-! ## Components -/

/-- The stretches between slashes, empty ones included. -/
def splitSlash : List Char → List (List Char)
  | [] => [[]]
  | c :: cs =>
    if c == '/' then [] :: splitSlash cs
    else
      match splitSlash cs with
      | [] => [[c]]
      | first :: rest => (c :: first) :: rest

/-- Stretches with slashes between them. -/
def joinSlash : List (List Char) → List Char
  | [] => []
  | [part] => part
  | part :: rest => part ++ '/' :: joinSlash rest

/-- The component for a directory itself. -/
def here : List Char := ['.']

/-- The component for a directory's parent. -/
def up : List Char := ['.', '.']

/-- Add a component to those kept so far, last first: empty ones and `.` vanish, `..` takes back a
name. Above the top of a rooted path there is nothing to take back; a relative path keeps its
leading `..`s. -/
def push (rooted : Bool) (kept : List (List Char)) (part : List Char) : List (List Char) :=
  if part == [] || part == here then kept
  else if part == up then
    match kept with
    | [] => if rooted then [] else [up]
    | last :: rest => if last == up then up :: kept else rest
  else part :: kept

/-- The components of a path, normalised. -/
def normalParts (rooted : Bool) (parts : List (List Char)) : List (List Char) :=
  (parts.foldl (push rooted) []).reverse

/-- The slashes a normalised path starts with: exactly two are kept, more count as one. -/
def leading : List Char → List Char
  | '/' :: '/' :: '/' :: _ => ['/']
  | '/' :: '/' :: _ => ['/', '/']
  | '/' :: _ => ['/']
  | _ => []

/-- Does a path start at the top? -/
def isRooted (p : String) : Bool :=
  p.toList.head? == some '/'

/-! ## Operations on texts -/

/-- The normalised path. -/
def normalize (p : String) : String :=
  let cs := p.toList
  let lead := leading cs
  let text := lead ++ joinSlash (normalParts (!lead.isEmpty) (splitSlash cs))
  if text.isEmpty then "." else String.ofList text

theorem head?_leading (cs : List Char) : (leading ('/' :: cs)).head? = some '/' := by
  unfold leading
  split <;> simp_all

/-- A path from the top stays one when it is normalised. -/
theorem isRooted_normalize {p : String} (h : isRooted p = true) :
    isRooted (normalize p) = true := by
  have hhead : p.toList.head? = some '/' := by simpa [isRooted] using h
  obtain ⟨cs, hcs⟩ : ∃ cs, p.toList = '/' :: cs := List.head?_eq_some_iff.mp hhead
  obtain ⟨more, hlead⟩ := List.head?_eq_some_iff.mp (head?_leading cs)
  simp [normalize, hcs, hlead, isRooted]

/-- A path relative to a directory. -/
def join (dir path : String) : String :=
  if isRooted path || dir.isEmpty then path
  else if dir.toList.getLast? == some '/' then dir ++ path
  else dir ++ "/" ++ path

/-- The normalised path from the top, relative paths starting in the working directory. -/
def absolute (cwd path : String) : String :=
  normalize (join cwd path)

/-- Without slashes at the end. -/
def trimSlashes (cs : List Char) : List Char :=
  (cs.reverse.dropWhile (· == '/')).reverse

/-- The part of a path before its last slash. Slashes at its end go too, unless there is nothing
else. -/
def directory (p : String) : String :=
  let head := (p.toList.reverse.dropWhile (· != '/')).reverse
  if head.all (· == '/') then String.ofList head else String.ofList (trimSlashes head)

/-- The part of a path after its last slash. -/
def fileName (p : String) : List Char :=
  (p.toList.reverse.takeWhile (· != '/')).reverse

/-- The extension of a file name: from its last point on, if a name that does not consist of points
alone stands before it. -/
def extensionOf (name : List Char) : List Char :=
  let after := (name.reverse.takeWhile (· != '.')).reverse
  let before := (name.reverse.drop after.length).drop 1
  if after.length < name.length && before.any (· != '.') then '.' :: after else []

/-- The extension of a path's last component, point included; empty when there is none. -/
def ext (p : String) : String :=
  String.ofList (extensionOf (fileName p))

/-- The components of a normalised path from the top. -/
def parts (p : String) : List (List Char) :=
  (splitSlash p.toList).filter (· != [])

/-- How many components two paths share at their start. -/
def shared : List (List Char) → List (List Char) → Nat
  | a :: as, b :: bs => if a == b then shared as bs + 1 else 0
  | _, _ => 0

/-- The components that lead from one directory to a path. -/
def relativeParts (start target : List (List Char)) : List (List Char) :=
  let n := shared start target
  List.replicate (start.length - n) up ++ target.drop n

/-- The path that leads from a directory to a place. -/
def relative (cwd start target : String) : String :=
  let found := relativeParts (parts (absolute cwd start)) (parts (absolute cwd target))
  if found.isEmpty then "." else String.ofList (joinSlash found)

/-- Does a place lie in a directory, or is it the directory itself? Decided on the normalised
texts. -/
def isWithin (cwd root path : String) : Bool :=
  let root := (absolute cwd root).toList
  let path := (absolute cwd path).toList
  path == root || (trimSlashes root ++ ['/']).isPrefixOf path

end CodeGraph.Path
