import CodeGraph.Table

/-!
# Logging

Levels, the handlers of a log, and the lines that messages become. There is one console handler,
however often logging is set up; handlers of others stay where they are.
-/

namespace CodeGraph

/-- The importance of a message. -/
abbrev Level := Nat

namespace Level

/-- For those who look for a fault. -/
def debug : Level := 10

/-- What goes on. -/
def info : Level := 20

/-- What may surprise. -/
def warning : Level := 30

/-- What went wrong. -/
def error : Level := 40

/-- What ends everything. -/
def critical : Level := 50

/-- The levels by name. -/
def byName : List (String × Level) :=
  [("CRITICAL", critical), ("FATAL", critical), ("ERROR", error), ("WARN", warning),
   ("WARNING", warning), ("INFO", info), ("DEBUG", debug), ("NOTSET", 0)]

/-- Letters whose capital form is spelled with plain letters. -/
def plainCapitals : List (Char × String) :=
  [('ı', "I"), ('ſ', "S"), ('ß', "SS"), ('ﬀ', "FF"), ('ﬁ', "FI"), ('ﬂ', "FL"), ('ﬃ', "FFI"),
   ('ﬄ', "FFL"), ('ﬅ', "ST"), ('ﬆ', "ST")]

/-- The capital form of a letter, as far as it is spelled with plain letters. -/
def capital (c : Char) : List Char :=
  match plainCapitals.lookup c with
  | some s => s.toList
  | none => [c.toUpper]

/-- A name in capital letters. -/
def capitals (name : String) : String :=
  String.ofList (name.toList.flatMap capital)

/-- The level of a name, whatever its letter case. -/
def named? (name : String) : Option Level :=
  byName.lookup (capitals name)

/-- The level of a name; unknown names stand for the usual level. -/
def ofName (name : String) : Level :=
  (named? name).getD info

/-- The name written for a level. -/
def text (level : Level) : String :=
  let names := [(critical, "CRITICAL"), (error, "ERROR"), (warning, "WARNING"), (info, "INFO"),
    (debug, "DEBUG"), (0, "NOTSET")]
  (names.lookup level).getD ("Level " ++ toString level)

end Level

/-- Where the messages of a log go. -/
structure Handler where
  /-- The name it goes by, if it was given one. -/
  name : Option String
  /-- The least level of the messages it takes. -/
  level : Level
  /-- What it writes to. -/
  stream : String
  deriving DecidableEq, Repr

namespace Handler

/-- The name of the console handler. -/
def consoleName : String := "jsgraph-console"

/-- The stream that the console handler writes to if it is given no other. -/
def standardStream : String := "stderr"

/-- A console handler. -/
def console (stream : Option String) (level : Level) : Handler :=
  ⟨some consoleName, level, stream.getD standardStream⟩

/-- Is it a console handler? -/
def isConsole (h : Handler) : Bool :=
  h.name == some consoleName

end Handler

/-- The state of the log: its level and its handlers, in order. -/
structure Log where
  level : Level
  handlers : List Handler
  deriving DecidableEq, Repr

namespace Log

/-- A log that nobody has set up, with the handlers of others. -/
def untouched (foreign : List Handler) : Log :=
  ⟨Level.warning, foreign⟩

/-- Add a handler after the others. -/
def add (log : Log) (h : Handler) : Log :=
  { log with handlers := log.handlers ++ [h] }

/-- Take a handler away. -/
def remove (log : Log) (h : Handler) : Log :=
  { log with handlers := log.handlers.erase h }

/-- Take the console handlers away, one after the other. -/
def removeConsoles (log : Log) : Log :=
  log.handlers.foldl (fun rest h => if h.isConsole then rest.remove h else rest) log

/-- Set up the log: the console handler is replaced, not added. -/
def setup (log : Log) (stream : Option String) (level : Level) : Log :=
  ({ log with level := level }.removeConsoles).add (.console stream level)

/-- The name of the level asked for; none or an empty one leaves it to the setting. -/
def levelName (asked : Option String) (setting : String) : String :=
  match asked with
  | some name => if name.isEmpty then setting else name
  | none => setting

/-- Set up the log at the level of a name, or at that of the setting. -/
def configure (log : Log) (stream asked : Option String) (setting : String) : Log :=
  log.setup stream (Level.ofName (levelName asked setting))

/-- The console handlers. -/
def consoles (log : Log) : List Handler :=
  log.handlers.filter (·.isConsole)

/-- The other handlers. -/
def foreigners (log : Log) : List Handler :=
  log.handlers.filter (fun h => !h.isConsole)

/-- The level of the console. -/
def consoleLevel? (log : Log) : Option Level :=
  (log.handlers.find? (·.isConsole)).map (·.level)

/-- Does a message of this level reach the console? -/
def shows (log : Log) (level : Level) : Bool :=
  log.level ≤ level && (log.consoleLevel?.any (· ≤ level))

end Log

/-- A message and where it comes from. -/
structure Message where
  source : String
  level : Level
  text : String
  deriving DecidableEq, Repr

namespace Message

/-- The name written for the source of a message; the top has a name of its own. -/
def sourceName (source : String) : String :=
  if source.isEmpty then "root" else source

/-- The line of a message, without its time. -/
def line (m : Message) : String :=
  sourceName m.source ++ " - " ++ m.level.text ++ " - " ++ m.text

end Message

/-- The messages that reach the console. -/
def Log.shown (log : Log) (messages : List Message) : List Message :=
  messages.filter (fun m => log.shows m.level)

end CodeGraph
