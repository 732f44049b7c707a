import CodeGraph.FileTree
import CodeGraph.Source
import CodeGraph.Table

/-!
# Scanning for sources

The files of a tree that are worth analysing, chosen by extension. Ignored directories are left
out wherever they stand.
-/

namespace CodeGraph

/-- What a scan looks for. -/
structure ScanRules where
  extensions : List String
  ignoredDirectories : List String
  deriving DecidableEq, Repr

namespace ScanRules

/-- Is a file of this name wanted? Letter case does not matter. -/
def wants (r : ScanRules) (name : String) : Bool :=
  (r.extensions.map Lowercase.lower).contains (Language.extensionOf name)

/-- Is the file at the end of this route wanted? -/
def wantsRoute (r : ScanRules) (route : Route) : Bool :=
  match route.getLast? with
  | some name => r.wants name
  | none => false

end ScanRules

/-- The text of a route. -/
def routeText (route : Route) : String :=
  String.intercalate "/" route

/-- The wanted files under a root, relative to it and in order. -/
def scan (d : Disk) (rules : ScanRules) (root : String) : List String :=
  Sorted.distinct
    (((d.files rules.ignoredDirectories root).filter rules.wantsRoute).map routeText)

/-- Scan a root that may be any text. One with a null character is no path, and a scan of it fails;
a root that is no directory has no files. -/
def scanRoot (d : Disk) (rules : ScanRules) (root : String) : Except DiskError (List String) :=
  if root.toList.contains '\x00' then .error .nullCharacter else .ok (scan d rules root)

end CodeGraph
