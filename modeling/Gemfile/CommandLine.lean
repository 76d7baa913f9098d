import Gemfile.Evaluation.Run
import Gemfile.Files
import Gemfile.Graph.Dot
import Gemfile.Json
import Gemfile.Settings.Read

/-!
# The command line

A run evaluates a dependency file and writes a report or a graph of it, to a file if one is named.
Nothing is written before the evaluation and the rendering have gone through.

* `World`                what a run leaves behind for the next one: files, sources, interpreters
* `Surroundings`         what a run finds and does not change
* `CommandLine.Run`      how a run ends, what it logs and prints, and the world behind it
* `CommandLine.perform`  a run with given settings
* `CommandLine.run`      a run with given arguments
-/

namespace Gemfile

structure World where
  files : Files
  sources : Sources
  detected : Interpreter.Memory

structure Surroundings where
  environment : List (String × String)
  probe : Probe
  directory : String

namespace CommandLine

inductive Ending where
  | exit (code : Nat)
  /-- there are no settings to run with -/
  | refused (fault : Settings.Fault)
  /-- a fault that the command line does not report -/
  | escaped (fault : Fault)
deriving DecidableEq

structure Run where
  world : World
  ending : Ending
  log : List Log.Entry
  output : String

def name : String := "gem-deps"

def versionText : String := "0.1.0"

/-- the excluded groups as the report names them: each once and in order -/
def excluded (s : Settings) : List Text.Codes := s.without.eraseDups.mergeSort Text.Codes.le

def settingOf (s : Settings) (r : Surroundings) : Setting :=
  { path := s.target, without := distinct ((s.without.filterMap Text.ofCodes?).map Scalar.str),
    interpreter := s.interpreter, probe := r.probe }

def startOf (w : World) : State := { State.start w.sources with detected := w.detected }

def after (w : World) (s : State) : World := { w with sources := s.sources, detected := s.detected }

def entry (level : Level) (message : String) : Log.Entry := ⟨level, .commandLine, message⟩

def reported? (s : Settings) (f : Fault) : Option String :=
  match f with
  | .file .notFound => some (s.target.text ++ " does not exist")
  | f => f.message?

def absolute (directory : String) (p : Path) : String :=
  if p.root = 0 then "/".intercalate (directory :: p.parts) else p.text

def render (s : Settings) (g : Setting) (t : State) : Except Fault String :=
  match s.outputFormat with
  | .dot => t.dot g
  | .json => (t.report g).map fun r => (r.json (excluded s)).render

/-- writes a rendering where it belongs -/
def deliver (s : Settings) (r : Surroundings) (w : World) (log : List Log.Entry) (text : String) :
    Run :=
  match s.outputFile with
  | none => ⟨w, .exit 0, log, text⟩
  | some p =>
    match w.files.write p text with
    | .error f => ⟨w, .escaped (.file f), log, ""⟩
    | .ok files =>
      ⟨{ w with files := files }, .exit 0,
        log ++ [entry Level.info ("Output saved to " ++ absolute r.directory p)], ""⟩

/-- what is left to do when the file has been evaluated -/
def finish (s : Settings) (r : Surroundings) (w : World) (o : Outcome) : Run :=
  let w := after w o.state
  let log := o.state.log
  match o.fault with
  | some f =>
    match reported? s f with
    | some message => ⟨w, .exit 1, log ++ [entry Level.error message], ""⟩
    | none => ⟨w, .escaped f, log, ""⟩
  | none =>
    let log := log ++ if o.state.requests.isEmpty then
      [entry Level.warning (s.target.text ++ " does not request any gems")] else []
    match render s (settingOf s r) o.state with
    | .error f => ⟨w, .escaped f, log, ""⟩
    | .ok text => deliver s r w log text

/-- whether the output file exists and may not be overwritten -/
def isBlocked (s : Settings) (w : World) : Except FileFault Bool :=
  match s.outputFile with
  | none => .ok false
  | some p => if s.force then .ok false else w.files.has p

def blockedMessage (s : Settings) : String :=
  (s.outputFile.map Path.text).getD "" ++
    " already exists!\nRe-run with `--force` to overwrite the file."

def perform (s : Settings) (r : Surroundings) (w : World) : Run :=
  if s.version then
    ⟨w, .exit 0, [entry Level.info (name ++ " version " ++ versionText)], ""⟩
  else
    match isBlocked s w with
    | .error f => ⟨w, .escaped (.file f), [], ""⟩
    | .ok true => ⟨w, .exit 1, [entry Level.error (blockedMessage s)], ""⟩
    | .ok false => finish s r w ((startOf w).load (settingOf s r) (w.files.read s.target))

def run (args : List String) (r : Surroundings) (w : World) : Run :=
  match Settings.read args r.environment with
  | .error f => ⟨w, .refused f, [], ""⟩
  | .ok s =>
    let done := perform s r w
    { done with log := Log.shownFrom s.level done.log }

end CommandLine

end Gemfile
