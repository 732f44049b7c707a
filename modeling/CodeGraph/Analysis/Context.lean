import CodeGraph.Analysis.Run
import CodeGraph.Resolve
import CodeGraph.Source

/-!
# The context of a run

A run keeps the bytes and the trees of the files it has read, so that it sees every file as it was
at first. Nothing is kept of what could not be read.
-/

namespace CodeGraph

/-- A source with its tree, or why it has none. -/
abbrev Parsed := Except Unparseable Module

/-- The directory to analyse, from the top and normalised. -/
def validateRoot (d : Disk) (root : String) : Except AnalysisError String :=
  let root := Path.absolute d.cwd root
  if !d.pathExists root then .error (.missing root)
  else if !d.isDirectory root then .error (.notDirectory root)
  else .ok root

/-- What a run has read so far, and the parser it reads with. -/
structure Context where
  parser : Parser
  root : String
  data : Table String Bytes
  parsed : Table String Parsed

namespace Context

/-- A context that has read nothing. -/
def new (parser : Parser) (d : Disk) (root : String) : Except AnalysisError Context :=
  (validateRoot d root).map (fun root => ⟨parser, root, [], []⟩)

/-- The place of a file. -/
def placeOf (c : Context) (path : String) : String :=
  Path.join c.root path

/-- The bytes of a file, as first read. -/
def readBytes (c : Context) (d : Disk) (path : String) : Except DiskError Bytes × Context :=
  match c.data.get? path with
  | some data => (.ok data, c)
  | none =>
    match d.read (c.placeOf path) with
    | .ok data => (.ok data, { c with data := c.data.set path data })
    | .error e => (.error e, c)

/-- The text of a file; what is no text is replaced. -/
def readText (c : Context) (d : Disk) (path : String) : Except DiskError String × Context :=
  let (data, c) := c.readBytes d path
  (data.map Utf8.decodeLossy, c)

/-- The tree of a file, as first read. -/
def parse (c : Context) (d : Disk) (path : String) : Except DiskError Parsed × Context :=
  match c.parsed.get? path with
  | some p => (.ok p, c)
  | none =>
    match c.readBytes d path with
    | (.ok data, next) =>
      let p := parseSource c.parser path data
      (.ok p, { next with parsed := next.parsed.set path p })
    | (.error e, next) => (.error e, next)

/-- Where an import in a file leads. -/
def resolve (c : Context) (d : Disk) (extensions : List String) (specifier path : String) :
    Option String :=
  Resolve.target? d extensions specifier (c.placeOf path) c.root

/-- The events of parsing a file: syntax errors are told of when they are first seen. -/
def parseEvents (c : Context) (path : String) (p : Parsed) : List Event :=
  match c.parsed.get? path, p with
  | none, .error u =>
    match u.obstacle with
    | .syntaxError => [.syntaxErrors path]
    | _ => []
  | _, _ => []

/-- Read the bytes of a file in a run. -/
def runBytes (c : Context) (d : Disk) (path : String) : Run (Bytes × Context) :=
  let (r, next) := c.readBytes d path
  Run.ofDisk (r.map (fun data => (data, next)))

/-- Read the tree of a file in a run. -/
def runParse (c : Context) (d : Disk) (path : String) : Run (Parsed × Context) := do
  let (r, next) := c.parse d path
  let p ← Run.ofDisk r
  Run.tell (c.parseEvents path p)
  pure (p, next)

end Context

end CodeGraph
