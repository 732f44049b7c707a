import CodeGraph.FileTree
import CodeGraph.Path

/-!
# Where an import leads

A specifier that starts with a point or a slash names a file of the tree: as written, with an
extension, or as the index of a directory. The first of these that is a file in the root is meant.
Every other specifier names a package outside the tree.
-/

namespace CodeGraph

namespace Resolve

/-- Does a specifier name a file rather than a package? -/
def isLocal (specifier : String) : Bool :=
  specifier.startsWith "." || specifier.startsWith "/"

/-- The paths a specifier may stand for, the preferred ones first. -/
def candidates (base : String) (extensions : List String) : List String :=
  base :: (extensions.map (base ++ ·) ++
    extensions.map (fun ext => Path.join base ("index" ++ ext)))

/-- The path that a specifier names from a file, before any extension is tried. -/
def base (specifier fromFile : String) : String :=
  Path.normalize (Path.join (Path.directory fromFile) specifier)

/-- Is the path a file inside the root? -/
def isMember (d : Disk) (root path : String) : Bool :=
  d.isFile path && Path.isWithin d.cwd root path

/-- The file that an import leads to, relative to the root. -/
def target? (d : Disk) (extensions : List String) (spec fromFile root : String) :
    Option String :=
  if isLocal spec then
    ((candidates (base spec fromFile) extensions).find? (isMember d root)).map
      (Path.relative d.cwd root)
  else none

end Resolve

end CodeGraph
