import CodeGraph.CommandLine.Arguments
import CodeGraph.Settings

/-!
# Commands

The commands of the program with their options and defaults.
-/

namespace CodeGraph

/-- A command. -/
inductive Command where
  /-- Build the file graph and tell about the files imported most. -/
  | analyze (path output : String) (top : Int)
  /-- Build the symbol graph. -/
  | symbols (path output : String)
  /-- Run the service, with a graph to start with or without one. -/
  | serve (path : Option String) (host : String) (port : Int) (reload : Bool)
  deriving DecidableEq, Repr

/-- A command and the log level asked for. -/
structure Invocation where
  logLevel : Option String
  command : Command
  deriving DecidableEq, Repr

namespace Command

open Arguments

/-- The option that asks for help. -/
def helpRule : OptionRule := ⟨.help, ["-h", "--help"], false⟩

/-- The option that names the output. -/
def outputRule : OptionRule := ⟨.output, ["-o", "--output"], true⟩

/-- The options before the command. -/
def commonRules : List OptionRule :=
  [helpRule, ⟨.logLevel, ["--log-level"], true⟩]

/-- The options of the file graph. -/
def analyzeRules : List OptionRule :=
  [helpRule, outputRule, ⟨.top, ["--top"], true⟩]

/-- The options of the symbol graph. -/
def symbolsRules : List OptionRule :=
  [helpRule, outputRule]

/-- The options of the service. -/
def serveRules : List OptionRule :=
  [helpRule, ⟨.host, ["--host"], true⟩, ⟨.port, ["--port"], true⟩,
   ⟨.reload, ["--reload"], false⟩]

/-- The path that was given. -/
def path? (r : Given) : Option String :=
  r.positional.bind List.head?

/-- The number given for an option. -/
def number (r : Given) (flag : Flag) (default : Int) : Int :=
  ((r.value? flag).bind integer?).getD default

/-- The command of this name, with what of its arguments could not be used. -/
def ofArguments (settings : Settings) (name : String) (args : List String) :
    Except ExitCode (Command × List String) :=
  if name == "analyze" then do
    let r ← read analyzeRules .one args
    pure (.analyze ((path? r).getD ".") ((r.value? .output).getD "graph.json") (number r .top 5),
      r.extras)
  else if name == "symbols" then do
    let r ← read symbolsRules .one args
    pure (.symbols ((path? r).getD ".") ((r.value? .output).getD "symbols.json"), r.extras)
  else if name == "serve" then do
    let r ← read serveRules .one args
    pure (.serve (path? r) ((r.value? .host).getD settings.host)
      (number r .port settings.port) (r.has .reload), r.extras)
  else .error misused

end Command

/-- What a command line asks for. A missing command and arguments without a use are refused. -/
def Invocation.ofArguments (settings : Settings) (args : List String) :
    Except ExitCode Invocation := do
  let r ← Arguments.read Command.commonRules .command args
  match r.positional with
  | some (name :: rest) =>
    let (command, extras) ← Command.ofArguments settings name rest
    if r.extras.isEmpty && extras.isEmpty then pure ⟨r.value? .logLevel, command⟩
    else throw Arguments.misused
  | _ => throw Arguments.misused

end CodeGraph
