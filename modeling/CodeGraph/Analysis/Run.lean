import CodeGraph.FileTree
import CodeGraph.Logging
import CodeGraph.Settings

/-!
# Runs

What happens during an analysis, and how it may fail. A run is the list of its events together
with its outcome; after a failure nothing more happens.
-/

namespace CodeGraph

/-- Why a root or a path in it is refused. -/
inductive AnalysisError where
  | missing (root : String)
  | notDirectory (root : String)
  | escapes (path : String)
  deriving DecidableEq, Repr

/-- The wording of a refusal. -/
def AnalysisError.message : AnalysisError → String
  | missing root => "Path does not exist: " ++ root
  | notDirectory root => "Path is not a directory: " ++ root
  | escapes path => "Path escapes the analysis root: " ++ path

/-- Why a run fails. -/
inductive Failure where
  | analysis (error : AnalysisError)
  | disk (error : DiskError)
  | settings (fault : SettingsFault)
  deriving DecidableEq, Repr

/-- The wording of a failure. -/
def Failure.message : Failure → String
  | analysis e => e.message
  | disk .notFound => "there is no such file"
  | disk .notDirectory => "a part of the path is no directory"
  | disk .isDirectory => "the path is a directory"
  | disk .unusable => "the path cannot be used"
  | disk .nullCharacter => "the path holds a null character"
  | settings .unreadable => "a list setting is no JSON"
  | settings (.invalid ds) => toString ds.length ++ " settings are not valid"

/-- What is worth telling about a run. -/
inductive Event where
  | syntaxErrors (path : String)
  | skipped (path reason : String)
  | unparsed (paths : List String)
  | fileGraphBuilt (root : String) (files edges : Nat)
  | symbolGraphBuilt (root : String) (symbols edges : Nat)
  deriving DecidableEq, Repr

/-- The message of an event. -/
def Event.message : Event → Message
  | syntaxErrors path =>
    ⟨"jsgraph.ast_parse", .debug, "Syntax errors in " ++ path ++ ", treating it as unparseable"⟩
  | skipped path reason =>
    ⟨"jsgraph.callgraph", .debug, "Skipping unparseable " ++ path ++ ": " ++ reason⟩
  | unparsed paths =>
    ⟨"jsgraph.filegraph", .debug,
      toString paths.length ++ " files could not be parsed: " ++ String.intercalate ", " paths⟩
  | fileGraphBuilt root files edges =>
    ⟨"jsgraph.filegraph", .info,
      "File graph for " ++ root ++ ": " ++ toString files ++ " files, " ++ toString edges ++
        " edges"⟩
  | symbolGraphBuilt root symbols edges =>
    ⟨"jsgraph.callgraph", .info,
      "Symbol graph for " ++ root ++ ": " ++ toString symbols ++ " symbols, " ++ toString edges ++
        " edges"⟩

/-- The events of a run and how it ended. -/
structure Run (α : Type) where
  events : List Event
  outcome : Except Failure α

namespace Run

/-- A run without events that ends well. -/
def done {α : Type} (a : α) : Run α :=
  ⟨[], .ok a⟩

/-- A run without events that fails. -/
def failed {α : Type} (f : Failure) : Run α :=
  ⟨[], .error f⟩

/-- Go on with the result of a run. -/
def andThen {α β : Type} (r : Run α) (f : α → Run β) : Run β :=
  match r.outcome with
  | .ok a => ⟨r.events ++ (f a).events, (f a).outcome⟩
  | .error e => ⟨r.events, .error e⟩

instance : Monad Run where
  pure := done
  bind := andThen

/-- Tell about an event. -/
def tell (events : List Event) : Run Unit :=
  ⟨events, .ok ()⟩

/-- The settings, or a failed run. -/
def ofSettings (settings : Except SettingsFault Settings) : Run Settings :=
  match settings with
  | .ok s => done s
  | .error f => failed (.settings f)

/-- A root or path, or a failed run. -/
def ofAnalysis {α : Type} (r : Except AnalysisError α) : Run α :=
  match r with
  | .ok a => done a
  | .error e => failed (.analysis e)

/-- What was read, or a failed run. -/
def ofDisk {α : Type} (r : Except DiskError α) : Run α :=
  match r with
  | .ok a => done a
  | .error e => failed (.disk e)

/-- Run over a list, with a state that is passed along. -/
def forEach {σ α β : Type} (step : σ → α → Run (β × σ)) : σ → List α → Run (List β × σ)
  | s, [] => done ([], s)
  | s, a :: rest => do
    let (b, s) ← step s a
    let (bs, s) ← forEach step s rest
    pure (b :: bs, s)

end Run

end CodeGraph
