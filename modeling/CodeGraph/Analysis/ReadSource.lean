import CodeGraph.Analysis.Context

/-!
# Reading a file of the root

The text of one file, if it really lies in the root: links are followed before the place is
compared with the root.
-/

namespace CodeGraph

/-- All line ends as line feeds. -/
def unifyLineEnds : List Char → List Char
  | '\r' :: '\n' :: rest => '\n' :: unifyLineEnds rest
  | '\r' :: rest => '\n' :: unifyLineEnds rest
  | c :: rest => c :: unifyLineEnds rest
  | [] => []

/-- The text of a file: what is no text is replaced, and lines end in line feeds. -/
def fileText (data : Bytes) : String :=
  String.ofList (unifyLineEnds (Utf8.decodeLossy data).toList)

/-- The real place of a path in a root. -/
def realPlace (d : Disk) (root path : String) : Except Failure String :=
  match validateRoot d root with
  | .error e => .error (.analysis e)
  | .ok root =>
    if d.meetsNull (Path.join root path) then .error (.disk .nullCharacter)
    else
      let full := d.realPath (Path.join root path)
      if Path.isWithin d.cwd (d.realPath root) full then .ok full
      else .error (.analysis (.escapes path))

/-- The text of a file in a root. -/
def readSource (d : Disk) (root path : String) : Except Failure String :=
  match realPlace d root path with
  | .error e => .error e
  | .ok full =>
    match d.read full with
    | .ok data => .ok (fileText data)
    | .error e => .error (.disk e)

end CodeGraph
