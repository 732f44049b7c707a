import CodeGraph.Analysis.Files
import CodeGraph.Analysis.ReadSource
import CodeGraph.Analysis.Symbols
import CodeGraph.Record.Decode
import CodeGraph.Record.Encode

/-!
# The service

Requests and their answers. The service holds the last file graph that was built, together with
its root; nothing but a successful analysis changes it.
-/

namespace CodeGraph

/-- The last analysis. -/
structure Latest where
  root : String
  graph : FileGraph
  deriving Repr

/-- The state of the service. -/
structure Service where
  latest : Option Latest
  deriving Repr

/-- A request. -/
inductive Request where
  | analyze (body : Json)
  | graph
  | symbols (body : Json)
  | file (path : Option String)

/-- An answer: its status and its body. -/
structure Response where
  status : Nat
  body : Json
  deriving Repr

namespace Response

/-- Success. -/
def ok (body : Json) : Response :=
  ⟨200, body⟩

/-- A refusal with its reason. -/
def refusal (status : Nat) (detail : String) : Response :=
  ⟨status, .object [("detail", .string detail)]⟩

open Json in
/-- A step into a value. -/
def placeJson : Place → Json
  | .field name => string name
  | .index i => int i

open Json in
/-- A defect. -/
def defectJson (d : Defect) : Json :=
  object [("type", string d.kind.text), ("loc", ofList placeJson d.place)]

/-- A request that makes no sense. -/
def invalid (defects : List Defect) : Response :=
  ⟨422, Json.ofList defectJson defects⟩

/-- The answer while nothing has been analysed. -/
def nothingLoaded : Response :=
  refusal 404 "No graph loaded. POST to /api/analyze first."

end Response

namespace Service

/-- A service that has analysed nothing. -/
def empty : Service :=
  ⟨none⟩

/-- Build the graph of a root and keep it. -/
def load (s : Service) (parser : Parser) (d : Disk) (settings : Except SettingsFault Settings)
    (root : String) : Run FileGraph × Service :=
  let run := analyzeFiles parser d settings root
  match run.outcome with
  | .ok graph => (run, ⟨some ⟨root, graph⟩⟩)
  | .error _ => (run, s)

/-- The path in the body of a request. -/
def bodyPath (body : Json) : Checked (Option String) :=
  Checked.within (.field "body")
    (match body with
      | .null => .defect .missing
      | .object _ => Check.fieldOption body "path" Check.text
      | _ => .defect .notBody)

/-- The root that a request means: the path it gives, the one passed in, or the working
directory. -/
def targetRoot (d : Disk) (path held : Option String) : String :=
  match path with
  | some p => if p.isEmpty then held.getD d.cwd else Path.absolute d.cwd p
  | none => held.getD d.cwd

/-- The answer to a run; a refused root is the client's fault. -/
def answer {α : Type} (outcome : Except Failure α) (body : α → Json) : Except Failure Response :=
  match outcome with
  | .ok a => .ok (.ok (body a))
  | .error (.analysis e) => .ok (.refusal 400 e.message)
  | .error e => .error e

/-- The text of a file as an answer. -/
def fileBody (path content : String) : Json :=
  .object [("path", .string path), ("content", .string content),
    ("total_lines", .int (content.toList.count '\n' + 1))]

/-- The answer to an attempt to read a file. A path with a null character is not answered. -/
def answerRead (path : String) : Except Failure String → Except Failure Response
  | .ok content => .ok (.ok (fileBody path content))
  | .error (.analysis (.escapes p)) => .ok (.refusal 403 (AnalysisError.escapes p).message)
  | .error (.analysis e) => .ok (.refusal 400 e.message)
  | .error (.disk .nullCharacter) => .error (.disk .nullCharacter)
  | .error (.disk _) => .ok (.refusal 404 ("File not found: " ++ path))
  | .error (.settings f) => .error (.settings f)

/-- Answer a request for a file. -/
def file (s : Service) (d : Disk) (path : String) : Except Failure Response :=
  match s.latest with
  | none => .ok .nothingLoaded
  | some latest => answerRead path (readSource d latest.root path)

/-- Answer a request. -/
def handle (s : Service) (parser : Parser) (d : Disk) (settings : Except SettingsFault Settings)
    (r : Request) : Except Failure Response × Service :=
  match r with
  | .analyze body =>
    match bodyPath body with
    | .faulty defects => (.ok (.invalid defects), s)
    | .valid path =>
      let (run, s) := s.load parser d settings (targetRoot d path none)
      (answer run.outcome FileGraph.toJson, s)
  | .graph =>
    match s.latest with
    | none => (.ok .nothingLoaded, s)
    | some latest => (.ok (.ok latest.graph.toJson), s)
  | .symbols body =>
    match bodyPath body with
    | .faulty defects => (.ok (.invalid defects), s)
    | .valid path =>
      let root := targetRoot d path (s.latest.map (·.root))
      (answer (analyzeSymbols parser d settings root).outcome SymbolGraph.toJson, s)
  | .file none => (.ok (.invalid [⟨.missing, [.field "query", .field "path"]⟩]), s)
  | .file (some path) => (s.file d path, s)

end Service

end CodeGraph
