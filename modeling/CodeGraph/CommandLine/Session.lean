import CodeGraph.CommandLine.Command
import CodeGraph.Json.Printer
import CodeGraph.Service
import CodeGraph.Summary

/-!
# Running commands

What a command does to the world: the files it writes, what it prints and tells, the service it
starts. A command that cannot analyse its path does nothing but say so.
-/

namespace CodeGraph

/-- A start of the server. -/
structure ServerStart where
  app : String
  host : String
  port : Int
  reload : Bool
  deriving DecidableEq, Repr

/-- The world around a command. -/
structure Session where
  disk : Disk
  service : Service
  output : String
  messages : List Message
  servers : List ServerStart

/-- How a command ends: with an exit code or by a failure. -/
abbrev Ending := Except Failure ExitCode

namespace Session

/-- A world in which nothing has happened yet. -/
def start (d : Disk) : Session :=
  ⟨d, Service.empty, "", [], []⟩

/-- The source of the messages of the commands. -/
def source : String := "jsgraph.cli"

/-- The source of the messages of the service. -/
def serviceSource : String := "api"

/-- The application that the server runs. -/
def application : String := "api:app"

/-- Tell something. -/
def tell (s : Session) (messages : List Message) : Session :=
  { s with messages := s.messages ++ messages }

/-- Tell what goes on. -/
def inform (s : Session) (text : String) : Session :=
  s.tell [⟨source, .info, text⟩]

/-- Tell about the events of a run. -/
def tellEvents (s : Session) (events : List Event) : Session :=
  s.tell (events.map Event.message)

/-- End with a failure. A refused root is told and gives an exit code of its own. -/
def fail (s : Session) (f : Failure) : Ending × Session :=
  match f with
  | .analysis e => (.ok 2, s.tell [⟨source, .error, e.message⟩])
  | f => (.error f, s)

/-- Print a text, or write it to a file. -/
def deliver (s : Session) (text output : String) : Ending × Session :=
  if output == "-" then (.ok 0, { s with output := s.output ++ text ++ "\n" })
  else
    match s.disk.write output (Utf8.encode text) with
    | .ok disk => (.ok 0, { s with disk := disk }.inform ("Graph written to " ++ output))
    | .error e => s.fail (.disk e)

/-- Go on after an analysis: tell about it, and end with its failure or use what it gives. -/
def conclude {α : Type} (s : Session) (analysis : Run α) (use : Session → α → Ending × Session) :
    Ending × Session :=
  match analysis.outcome with
  | .error failure => (s.tellEvents analysis.events).fail failure
  | .ok a => use (s.tellEvents analysis.events) a

/-- Deliver the file graph, and tell about the files imported most. -/
def deliverFiles (s : Session) (top : Int) (output : String) (graph : FileGraph) :
    Ending × Session :=
  let s := s.inform (Summary.fileGraph graph)
  let s := (Summary.mostReferenced graph top).foldl (fun s n => s.inform (Summary.node n)) s
  s.deliver graph.toJson.indented output

/-- Build the file graph and deliver it. -/
def analyze (s : Session) (parser : Parser) (settings : Except SettingsFault Settings)
    (path output : String) (top : Int) : Ending × Session :=
  let root := Path.absolute s.disk.cwd path
  (s.inform ("Analyzing codebase at: " ++ root)).conclude
    (analyzeFiles parser s.disk settings root)
    (fun s graph => s.deliverFiles top output graph)

/-- Deliver the symbol graph. -/
def deliverSymbols (s : Session) (output : String) (graph : SymbolGraph) : Ending × Session :=
  (s.inform (Summary.symbolGraph graph)).deliver graph.toJson.indented output

/-- Build the symbol graph and deliver it. -/
def symbols (s : Session) (parser : Parser) (settings : Except SettingsFault Settings)
    (path output : String) : Ending × Session :=
  let root := Path.absolute s.disk.cwd path
  (s.inform ("Extracting symbols at: " ++ root)).conclude
    (analyzeSymbols parser s.disk settings root)
    (fun s graph => s.deliverSymbols output graph)

/-- Start the server. -/
def startServer (s : Session) (host : String) (port : Int) (reload : Bool) : Ending × Session :=
  (.ok 0, { s with servers := s.servers ++ [⟨application, host, port, reload⟩] })

/-- Start the server for a graph that has been loaded. -/
def startLoaded (s : Session) (host : String) (port : Int) (reload : Bool) (graph : FileGraph) :
    Ending × Session :=
  let s := s.inform ("Ready: " ++ toString graph.nodes.length ++ " files, " ++
    toString graph.edges.length ++ " edges")
  let s :=
    if reload then
      s.tell [⟨source, .warning,
        "The reloading worker starts empty; POST to /api/analyze to load a graph"⟩]
    else s
  s.startServer host port reload

/-- Run the service, with a graph to start with if a path is given. -/
def serve (s : Session) (parser : Parser) (settings : Except SettingsFault Settings)
    (path : Option String) (host : String) (port : Int) (reload : Bool) : Ending × Session :=
  match path.filter (fun p => !p.isEmpty) with
  | none => s.startServer host port reload
  | some p =>
    let root := Path.absolute s.disk.cwd p
    let s := s.tell [⟨serviceSource, .info, "Analyzing: " ++ root⟩]
    let (analysis, service) := s.service.load parser s.disk settings root
    { s with service := service }.conclude analysis
      (fun s graph => s.startLoaded host port reload graph)

/-- Run a command. -/
def run (s : Session) (parser : Parser) (settings : Except SettingsFault Settings) :
    Command → Ending × Session
  | .analyze path output top => s.analyze parser settings path output top
  | .symbols path output => s.symbols parser settings path output
  | .serve path host port reload => s.serve parser settings path host port reload

end Session

/-- What comes of a command line. -/
inductive Outcome where
  /-- The arguments ended it. -/
  | exited (code : ExitCode)
  /-- The command was run, under a log that had been set up. -/
  | ran (ending : Ending) (log : Log) (session : Session)

/-- Run a command line. -/
def runCommandLine (parser : Parser) (session : Session) (env : Environment) (args : List String) :
    Outcome :=
  let settings := Settings.ofEnvironment env
  match settings with
  | .error f => .ran (.error (.settings f)) (Log.untouched []) session
  | .ok s =>
    match Invocation.ofArguments s args with
    | .error code => .exited code
    | .ok invocation =>
      let log := (Log.untouched []).configure none invocation.logLevel s.logLevel
      let (ending, session) := session.run parser settings invocation.command
      .ran ending log session

end CodeGraph
