import CodeGraph.Json.Reader
import CodeGraph.Record.Checked
import CodeGraph.Scan
import CodeGraph.Text.Lowercase

/-!
# Settings

What a run may be told by its environment. Lists are given as JSON; a text that is no JSON is a
fault of its own, found before any value is checked.
-/

namespace CodeGraph

/-- The settings of a run. -/
structure Settings where
  sourceExtensions : List String
  htmlExtensions : List String
  ignoreDirs : List String
  /-- The display limit for conditions. -/
  conditionMaxLength : Int
  host : String
  port : Int
  logLevel : String
  deriving DecidableEq, Repr

/-- Why settings cannot be used. -/
inductive SettingsFault where
  /-- A list that is no JSON. -/
  | unreadable
  | invalid (defects : List Defect)
  deriving DecidableEq, Repr

/-- Names of the environment with their values. -/
abbrev Environment := List (String × String)

namespace Settings

/-- The settings without any environment. -/
def standard : Settings where
  sourceExtensions := [".js", ".jsx", ".ts", ".tsx", ".mjs", ".cjs"]
  htmlExtensions := [".html", ".htm"]
  ignoreDirs :=
    ["node_modules", "dist", "build", ".next", "coverage", ".git", "vendor", "__pycache__"]
  conditionMaxLength := 40
  host := "127.0.0.1"
  port := 42069
  logLevel := "INFO"

/-- What the names of all settings start with, in lower case. -/
def namePrefix : String := "jsgraph_"

/-- The value that the environment gives a setting. Letter case does not matter; the last of
several spellings counts. -/
def lookup (env : Environment) (field : String) : Option String :=
  ((env.filter (fun e => Lowercase.lower e.1 == namePrefix ++ field)).getLast?).map (·.2)

/-- The values of the list settings, read as JSON. Null stands for the default. -/
def listValue (env : Environment) (field : String) : Except SettingsFault (Option Json) :=
  match lookup env field with
  | none => .ok none
  | some text =>
    match Json.parse text with
    | some .null => .ok none
    | some j => .ok (some j)
    | none => .error .unreadable

/-- The value of a setting, its default if it is not given. -/
def value {α : Type} (field : String) (given : Option Json) (default : α)
    (check : Json → Checked α) : Checked α :=
  match given with
  | some j => Checked.within (.field field) (check j)
  | none => .valid default

/-- The settings that an environment gives. -/
def ofEnvironment (env : Environment) : Except SettingsFault Settings := do
  let sources ← listValue env "source_extensions"
  let pages ← listValue env "html_extensions"
  let ignored ← listValue env "ignore_dirs"
  let given := fun field => (lookup env field).map Json.string
  let checked := Settings.mk
    <$> value "source_extensions" sources standard.sourceExtensions (Check.list Check.text)
    <*> value "html_extensions" pages standard.htmlExtensions (Check.list Check.text)
    <*> value "ignore_dirs" ignored standard.ignoreDirs (Check.list Check.text)
    <*> value "condition_max_length" (given "condition_max_length") standard.conditionMaxLength
          Check.integer
    <*> value "host" (given "host") standard.host Check.text
    <*> value "port" (given "port") standard.port Check.integer
    <*> value "log_level" (given "log_level") standard.logLevel Check.text
  match checked with
  | .valid s => .ok s
  | .faulty defects => .error (.invalid defects)

/-- The limit for conditions that is in force: the one asked for, or that of the settings. A limit
of zero counts as none asked for; the settings are looked at only then. -/
def conditionLimit (settings : Except SettingsFault Settings) (asked : Option Int) :
    Except SettingsFault Int :=
  match asked.filter (· != 0) with
  | some limit => .ok limit
  | none => settings.map (·.conditionMaxLength)

/-- What a scan looks for, with or without pages. The caller may give extensions and directories to
ignore; otherwise they are those of the settings. No extensions count as none given. -/
def scanRulesFor (s : Settings) (withPages : Bool) (extensions ignored : Option (List String)) :
    ScanRules where
  extensions :=
    (extensions.filter (fun given => !given.isEmpty)).getD s.sourceExtensions ++
      if withPages then s.htmlExtensions else []
  ignoredDirectories := ignored.getD s.ignoreDirs

/-- What a scan looks for under these settings, with or without pages. -/
def scanRules (s : Settings) (withPages : Bool) : ScanRules :=
  s.scanRulesFor withPages none none

open Json in
/-- The settings as JSON. -/
def toJson (s : Settings) : Json :=
  object [("source_extensions", strings s.sourceExtensions),
    ("html_extensions", strings s.htmlExtensions), ("ignore_dirs", strings s.ignoreDirs),
    ("condition_max_length", int s.conditionMaxLength), ("host", string s.host),
    ("port", int s.port), ("log_level", string s.logLevel)]

end Settings

end CodeGraph
