import CodeGraph.CommandLine.Session
import CodeGraph.Scan

/-!
# Reports

The world before a command as a snapshot, and what the command did to it as a report.
-/

namespace CodeGraph

namespace Snapshot

/-- The texts of an object, each under its name. -/
def textsByName : Json → Checked (List (String × String))
  | .object members =>
    (Checked.items Check.text 0 (members.map (·.2))).map ((members.map (·.1)).zip ·)
  | _ => .defect .notRecord

/-- A file tree with these files, directories and links, each under its path from the working
directory. -/
def build (cwd : String) (files links : List (String × String)) (directories : List String) :
    Disk :=
  let d : Disk := ⟨.directory [], Path.normalize ("/" ++ cwd),
    Path.isRooted_normalize (by simp [Path.isRooted])⟩
  let d := d.makeDirectory d.cwd
  let d := files.foldl (fun d f => d.putEntry f.1 (.file (Utf8.encode f.2))) d
  let d := directories.foldl (fun d path => d.makeDirectory path) d
  links.foldl (fun d l => d.putEntry l.1 (.link l.2)) d

/-- The file tree of a snapshot. -/
def disk : Json → Checked Disk :=
  Check.record fun j => build
    <$> Check.fieldOr j "cwd" "/" Check.text
    <*> Check.fieldOr j "files" [] textsByName
    <*> Check.fieldOr j "links" [] textsByName
    <*> Check.fieldList j "dirs" Check.text

end Snapshot

namespace Report

/-- The lines of the messages that a log shows. -/
def logLines (log : Log) (messages : List Message) : List String :=
  (log.shown messages).flatMap (fun m => m.line.splitOn "\n")

/-- The files under a directory that are new or changed, with their bytes. -/
def written (before after : Disk) (directory : String) : List (String × Bytes) :=
  (after.files [] directory).filterMap fun route =>
    let path := Path.join directory (routeText route)
    match before.read path, after.read path with
    | _, .error _ => none
    | .ok old, .ok new => if old == new then none else some (routeText route, new)
    | .error _, .ok new => some (routeText route, new)

open Json in
/-- A start of the server. -/
def serverJson (s : ServerStart) : Json :=
  object [("app", string s.app), ("host", string s.host), ("port", int s.port),
    ("reload", bool s.reload)]

open Json in
/-- What the service holds. -/
def latestJson (l : Latest) : Json :=
  object [("root", string l.root), ("files", strings (l.graph.nodes.map (·.id)))]

open Json in
/-- What a command did besides ending. -/
def effects (before : Disk) (log : Log) (s : Session) : List (String × Json) :=
  [("stdout", string s.output),
   ("log", strings (logLines log s.messages)),
   ("written", object ((written before s.disk before.cwd).map
      (fun (path, data) => (path, string (Utf8.decodeLossy data))))),
   ("serve", ofList serverJson s.servers),
   ("stored", ofOption latestJson s.service.latest)]

end Report

end CodeGraph
