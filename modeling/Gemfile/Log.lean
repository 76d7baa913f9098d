import Gemfile.Text.LineBreak

/-!
# Log messages

* `Level`            the weight of a message; five weights have names
* `Level.ofText s`   the weight that a setting asks for, in any case of letters; what names no
                     weight asks for `info`
* `Log.Entry`        a message with its weight and the part of the program it comes from
* `Log.shown least`  whether messages of a weight are written where `least` is asked for
* `Log.linesOf s`    the lines of something written
-/

namespace Gemfile

abbrev Level := Int

namespace Level

def debug : Level := 10
def info : Level := 20
def warning : Level := 30
def error : Level := 40
def critical : Level := 50

def names : List (Level × String) :=
  [(0, "NOTSET"), (debug, "DEBUG"), (info, "INFO"), (warning, "WARNING"), (error, "ERROR"),
   (critical, "CRITICAL")]

def name (l : Level) : String := (names.lookup l).getD ("Level " ++ toString l)

/-- the names that a setting may use, and what each asks for -/
def accepted : List (String × Level) :=
  [("DEBUG", debug), ("INFO", info), ("WARNING", warning), ("WARN", warning), ("ERROR", error),
   ("CRITICAL", critical), ("FATAL", critical), ("NOTSET", 0)]

/-- the capital of a letter of ASCII, or of a letter whose capital is one of ASCII -/
def capital (c : Char) : Char :=
  if c = '\u0131' then 'I' else if c = '\u017f' then 'S' else c.toUpper

def ofText (s : String) : Level :=
  (accepted.lookup (String.ofList (s.toList.map capital))).getD info

end Level

namespace Log

/-- the parts of the program that write messages -/
inductive Channel where
  | evaluation
  | requests
  | vendored
  | sources
  | interpreter
  | commandLine
deriving DecidableEq

def Channel.name : Channel → String
  | .evaluation => "gem_deps.api"
  | .requests => "gem_deps.request_set"
  | .vendored => "gem_deps.vendor_set"
  | .sources => "gem_deps.sources"
  | .interpreter => "gem_deps.runtime"
  | .commandLine => "gem_deps._cli"

structure Entry where
  level : Level
  channel : Channel
  message : String
deriving DecidableEq

def shown (least level : Level) : Bool := decide (0 < level) && decide (least ≤ level)

/-- the messages that are written where `least` is asked for -/
def shownFrom (least : Level) (entries : List Entry) : List Entry :=
  entries.filter fun e => shown least e.level

/-- the name of the channel that all others belong to, for which no name stands too -/
def rootName : String := "root"

/-- a line of the log without its time -/
def lineText (channel : String) (level : Level) (message : String) : String :=
  (if channel.isEmpty then rootName else channel) ++ " - " ++ level.name ++ " - " ++ message

def Entry.line (e : Entry) : String := lineText e.channel.name e.level e.message

def linesOf (written : String) : List String := (Text.lines written.toList).map String.ofList

end Log

end Gemfile
