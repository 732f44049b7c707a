import CodeGraph.Path
import CodeGraph.Text.Utf8

/-!
# File trees

A disk as a value: a tree of files, directories and symbolic links, and a working directory.
Looking a path up follows links the way an operating system does; `realPath` follows them for a
path whose tail may not exist.
-/

namespace CodeGraph

/-- What a name in a directory stands for. -/
inductive Entry where
  | file (data : Bytes)
  | directory (entries : List (String × Entry))
  | link (target : String)

/-- Why a path cannot be used. -/
inductive DiskError where
  | notFound
  | notDirectory
  | isDirectory
  /-- Too many links, or a name that is too long. -/
  | unusable
  /-- A path with a null character. -/
  | nullCharacter
  deriving DecidableEq, Repr

/-- The names on the way from the top to a place, none of them a link. -/
abbrev Route := List String

namespace Entry

/-- The entry of a name among those of a directory. -/
def find? (entries : List (String × Entry)) (name : String) : Option Entry :=
  (entries.find? (fun e => e.1 == name)).map (·.2)

/-- The entry at a route; links on the way are not followed. -/
def at? : Entry → Route → Option Entry
  | e, [] => some e
  | directory entries, name :: rest =>
    match find? entries name with
    | some e => e.at? rest
    | none => none
  | _, _ :: _ => none

/-- The target of the link at a route, given last name first, if a link is there. -/
def linkAt? (top : Entry) (back : Route) : Option String :=
  match top.at? back.reverse with
  | some (link target) => some target
  | _ => none

/-- Put an entry under a name, in place of what was there or at the end. -/
def put (entries : List (String × Entry)) (name : String) (e : Entry) : List (String × Entry) :=
  if entries.any (fun x => x.1 == name) then
    entries.map (fun x => if x.1 == name then (name, e) else x)
  else entries ++ [(name, e)]

/-- The entries of a directory; what is none has none. -/
def contents : Entry → List (String × Entry)
  | directory entries => entries
  | _ => []

/-- Put an entry at a route, making directories on the way. -/
def insert : Entry → Route → Entry → Entry
  | _, [], new => new
  | e, name :: rest, new =>
    let below := (find? e.contents name).getD (directory [])
    directory (put e.contents name (below.insert rest new))

/-- Take away what is at a route. -/
def remove : Entry → Route → Entry
  | e, [] => e
  | directory entries, [name] => directory (entries.filter (fun x => x.1 != name))
  | directory entries, name :: rest =>
    match find? entries name with
    | some below => directory (put entries name (below.remove rest))
    | none => directory entries
  | e, _ :: _ => e

end Entry

/-- A file tree with a working directory, which is given from the top. -/
structure Disk where
  top : Entry
  cwd : String
  rooted : Path.isRooted cwd = true

namespace Disk

/-- The names in a path, empty ones and points included. -/
def names (path : String) : List String :=
  (Path.splitSlash path.toList).map String.ofList

/-! ## Looking up -/

/-- Where a path leads. -/
inductive Place where
  | found (route : Route) (entry : Entry)
  /-- Nothing is there, but its directory exists. -/
  | vacant (directory : Route) (name : String)

/-- The longest name a directory can hold, in bytes. -/
def longestName : Nat := 255

/-- The longest path that can be looked up, in bytes. -/
def longestPath : Nat := 4095

/-- How many links a lookup follows. -/
def linkLimit : Nat := 40

/-- Follow names from a route, given last name first. What to do at a link is passed in: it gets
the route of the link's directory, the link's target and the names still to come. -/
def follow (top : Entry) (followLast : Bool)
    (atLink : Route → String → List String → Except DiskError Place) :
    Route → List String → Except DiskError Place
  | back, [] =>
    match top.at? back.reverse with
    | some e => .ok (.found back.reverse e)
    | none => .error .notFound
  | back, name :: rest =>
    match top.at? back.reverse with
    | some (.directory entries) =>
      if name == "" || name == "." then follow top followLast atLink back rest
      else if name == ".." then follow top followLast atLink back.tail rest
      else if longestName < name.utf8ByteSize then .error .unusable
      else
        match Entry.find? entries name with
        | none =>
          if rest.isEmpty then .ok (.vacant back.reverse name) else .error .notFound
        | some (.link target) =>
          if rest.isEmpty && !followLast then
            .ok (.found (back.reverse ++ [name]) (.link target))
          else atLink back target rest
        | some _ => follow top followLast atLink (name :: back) rest
    | some _ => .error .notDirectory
    | none => .error .notFound

/-- Follow names and at most so many links. -/
def followLinks (top : Entry) (followLast : Bool) :
    Nat → Route → List String → Except DiskError Place
  | 0 => follow top followLast (fun _ _ _ => .error .unusable)
  | n + 1 => follow top followLast (fun back target rest =>
      followLinks top followLast n (if Path.isRooted target then [] else back)
        (names target ++ rest))

/-- The route a path starts from, last name first. -/
def startOf (d : Disk) (path : String) : Route :=
  if Path.isRooted path then [] else ((names d.cwd).filter (· != "")).reverse

/-- Where a path leads; whether a link at its end is followed is passed in. -/
def place (d : Disk) (followLast : Bool) (path : String) : Except DiskError Place :=
  if path.toList.contains '\x00' then .error .nullCharacter
  else if path == "" then .error .notFound
  else if longestPath < path.utf8ByteSize then .error .unusable
  else followLinks d.top followLast linkLimit (d.startOf path) (names path)

/-- What is at a path, links followed. -/
def stat (d : Disk) (path : String) : Except DiskError Entry :=
  match d.place true path with
  | .ok (.found _ e) => .ok e
  | .ok (.vacant _ _) => .error .notFound
  | .error e => .error e

/-- Is there anything at a path? -/
def pathExists (d : Disk) (path : String) : Bool :=
  match d.stat path with
  | .ok _ => true
  | .error _ => false

/-- Is a regular file at a path? -/
def isFile (d : Disk) (path : String) : Bool :=
  match d.stat path with
  | .ok (.file _) => true
  | _ => false

/-- Is a directory at a path? -/
def isDirectory (d : Disk) (path : String) : Bool :=
  match d.stat path with
  | .ok (.directory _) => true
  | _ => false

/-- The bytes of the file at a path. -/
def read (d : Disk) (path : String) : Except DiskError Bytes :=
  match d.stat path with
  | .ok (.file data) => .ok data
  | .ok _ => .error .isDirectory
  | .error e => .error e

/-! ## Changing -/

/-- Write a file, through links, making it if its directory exists. -/
def write (d : Disk) (path : String) (data : Bytes) : Except DiskError Disk :=
  match d.place true path with
  | .ok (.found route (.file _)) => .ok { d with top := d.top.insert route (.file data) }
  | .ok (.found _ _) => .error .isDirectory
  | .ok (.vacant dir name) => .ok { d with top := d.top.insert (dir ++ [name]) (.file data) }
  | .error e => .error e

/-- The route of a path read lexically. -/
def routeOf (d : Disk) (path : String) : Route :=
  (Path.parts (Path.absolute d.cwd path)).map String.ofList

/-- Put an entry at a path read lexically, making directories on the way. -/
def putEntry (d : Disk) (path : String) (e : Entry) : Disk :=
  { d with top := d.top.insert (d.routeOf path) e }

/-- Make a directory, unless there is one. -/
def makeDirectory (d : Disk) (path : String) : Disk :=
  if d.isDirectory path then d else d.putEntry path (.directory [])

/-- Take away a file, a link or a whole directory. -/
def delete (d : Disk) (path : String) : Disk :=
  { d with top := d.top.remove (d.routeOf path) }

/-! ## Real paths -/

/-- The path of a route. -/
def routePath (route : Route) : String :=
  "/" ++ String.intercalate "/" route

/-- The outcome of following links in a path that need not exist. -/
inductive Real where
  /-- All links that are seen have been followed. The names, last first. -/
  | resolved (back : Route)
  /-- A link leads back to itself: the path up to it, and after it what was not looked at. -/
  | looping (path : String)

/-- Links met so far: the route of each, and where it leads unless that is still being found
out. -/
abbrev Seen := List (Route × Option Route)

/-- A path with the names after it that were not looked at. Two slashes in a row start again from
the top. -/
def stopAt (path : String) (rest : List String) : Real :=
  .looping (Path.join path (String.intercalate "/" rest))

/-- The target of the link that is seen at a route, given last name first. A link is looked for by
the path of its route, and where that is too long none is seen. -/
def linkSeen? (d : Disk) (back : Route) : Option String :=
  if longestPath < (routePath back.reverse).utf8ByteSize then none else d.top.linkAt? back

/-- Follow names, none of which need exist; `..` takes back a name. What to do at a link is passed
in: it gets the links met so far, the route of the link's directory and the link's target. -/
def realNames (d : Disk) (atLink : Seen → Route → String → Seen × Real) :
    Seen → Route → List String → Seen × Real
  | seen, back, [] => (seen, .resolved back)
  | seen, back, name :: rest =>
    if name == "" || name == "." then realNames d atLink seen back rest
    else if name == ".." then realNames d atLink seen back.tail rest
    else
      let here := name :: back
      match d.linkSeen? here with
      | some target =>
        match seen.lookup here with
        | some (some known) => realNames d atLink seen known rest
        | some none => (seen, stopAt (routePath here.reverse) rest)
        | none =>
          match atLink ((here, none) :: seen) back target with
          | (seen, .resolved found) => realNames d atLink ((here, some found) :: seen) found rest
          | (seen, .looping path) => (seen, stopAt path rest)
      | none => realNames d atLink seen here rest

/-- Follow names and links. The number bounds how deep links lead to links. -/
def realLinks (d : Disk) : Nat → Seen → Route → List String → Seen × Real
  | 0 => realNames d (fun seen back _ => (seen, .looping (routePath back.reverse)))
  | n + 1 => realNames d (fun seen back target =>
      realLinks d n seen (if Path.isRooted target then [] else back) (names target))

mutual

/-- The number of links in an entry. -/
def countLinks : Entry → Nat
  | .file _ => 0
  | .link _ => 1
  | .directory entries => countLinksIn entries

/-- The number of links in a list of entries. -/
def countLinksIn : List (String × Entry) → Nat
  | [] => 0
  | (_, e) :: rest => countLinks e + countLinksIn rest

end

/-- The path with all links followed that are seen. Names that do not exist are kept, and a path
that leads into a loop of links is only normalised. -/
def realPath (d : Disk) (path : String) : String :=
  let path := Path.join d.cwd path
  Path.normalize <|
    match (d.realLinks (countLinks d.top + 1) [] [] (names path)).2 with
    | .resolved back => routePath back.reverse
    | .looping path => path

/-- Is a name with a null character looked at when the links of a path are followed? After a loop of
links nothing is looked at. -/
def meetsNull (d : Disk) (path : String) : Bool :=
  let all := names (Path.join d.cwd path)
  let before := all.takeWhile (fun name => !name.toList.contains '\x00')
  match (d.realLinks (countLinks d.top + 1) [] [] before).2 with
  | .resolved _ => before.length < all.length
  | .looping _ => false

/-! ## Listing -/

mutual

/-- The files in a directory and below, as routes from it. A directory is listed by its path, so one
whose path is too long has none. Directories with an ignored name are left out and links to
directories are not followed. -/
def filesBelow (d : Disk) (skip : List String) (path : String) : Entry → List Route
  | .directory entries =>
    if longestPath < path.utf8ByteSize then [] else filesAmong d skip path entries
  | _ => []

/-- The files among these entries of a directory and below. A link is one of them unless its path
leads to a directory. -/
def filesAmong (d : Disk) (skip : List String) (path : String) :
    List (String × Entry) → List Route
  | [] => []
  | (name, .directory entries) :: rest =>
    (if skip.contains name then []
      else (filesBelow d skip (Path.join path name) (.directory entries)).map (name :: ·)) ++
    filesAmong d skip path rest
  | (name, .file _) :: rest => [name] :: filesAmong d skip path rest
  | (name, .link _) :: rest =>
    (if d.isDirectory (Path.join path name) then [] else [[name]]) ++ filesAmong d skip path rest

end

/-- The files below a directory given by its path. There are none if it cannot be listed. -/
def files (d : Disk) (skip : List String) (path : String) : List Route :=
  match d.place true path with
  | .ok (.found _ e) => d.filesBelow skip path e
  | _ => []

end Disk

end CodeGraph
