import Gemfile.Evaluation.Gem
import Gemfile.Statement.OfTokens

/-!
# Evaluation of statements

* `Action`            what a statement asks for, once its arguments are known to fit
* `Action.of`         checks the arguments of a statement
* `Action.perform`    does what a statement asks for, with its block as a run of its own
* `Statement.run`, `Statement.runAll`   statements in order, up to the first fault
* `State.load`        a whole file
-/

namespace Gemfile

inductive Action where
  | gem (name : Value) (requirements : List Value) (options : Options)
  | group (names : List Value)
  | platform (what : Value)
  | ruby (version : Value) (options : Options)
  | source (url : Value)

namespace Action

/-- a kind of statement that is about its block -/
def takesBlock : Statement.Kind → Bool
  | .group | .platform | .platforms => true
  | _ => false

/-- what a statement with a fitting block or none asks for -/
def ofArguments (kind : Statement.Kind) (args : List Value) (options : Options) :
    Except Misuse Action :=
  match kind, args with
  | .gem, name :: requirements => .ok (.gem name requirements options)
  | .gem, [] => .error .gemWithoutName
  | .group, name :: names =>
    if options.isEmpty then .ok (.group (name :: names)) else .error .groupWithoutNames
  | .group, [] => .error .groupWithoutNames
  | .ruby, [version] => .ok (.ruby version options)
  | .ruby, _ => .error .notOneVersion
  | .source, [url] => if options.isEmpty then .ok (.source url) else .error .notOneUrl
  | .source, _ => .error .notOneUrl
  | kind, [what] => if options.isEmpty then .ok (.platform what) else .error (.notOnePlatform kind)
  | kind, _ => .error (.notOnePlatform kind)

def of (kind : Statement.Kind) (args : List Value) (options : Options) (block : Bool) :
    Except Misuse Action :=
  if takesBlock kind && !block then .error (.noBlock kind) else ofArguments kind args options

end Action

namespace State

/-- evaluates a block with every gem in the given groups; no group is left open behind it -/
def inGroups (names : List Value) (block : State → Outcome) (s : State) : Outcome :=
  (block { s with currentGroups := some names }).mapState fun t => { t with currentGroups := none }

/-- evaluates a block if it is for the native platform -/
def onPlatform (what : Value) (block : State → Outcome) (s : State) : Outcome :=
  if what = .str nativePlatform then block s
  else .done (s.note .info .evaluation ("Skipping dependencies for platform " ++ what.text))

def interpreter (g : Setting) (s : State) : Except Fault (Interpreter × State) :=
  match g.interpreter with
  | some i => .ok (i, s)
  | none =>
    match s.detected.detect nativePlatform g.probe with
    | .error f => .error (.interpreter f)
    | .ok (i, memory) =>
      let t := { s with detected := memory }
      if (s.detected.lookup nativePlatform).isSome then .ok (i, t)
      else
        .ok (i, t.note .debug .interpreter
          ("Detected " ++ i.text ++ " at " ++ g.probe.location.getD ""))

/-- what a `ruby` statement finds wrong with an interpreter -/
def interpreterFault? (file : String) (i : Interpreter) (version : Value) (engine : Option Value) :
    Option Fault :=
  if version ≠ .str i.version then some (.otherVersion i.version file version)
  else
    match engine with
    | none => none
    | some e => if e ≠ .str i.engine then some (.otherEngine i.engine file e) else none

def checkRuby (g : Setting) (version : Value) (options : Options) (s : State) : Outcome :=
  let engine := given options "engine"
  if engine.isSome && (given options "engine_version").isNone then .failed s .engineWithoutVersion
  else
    match s.interpreter g with
    | .error f => .failed s f
    | .ok (i, s) =>
      match interpreterFault? g.file i version engine with
      | some f => .failed s f
      | none => .done s

/-- adds a source; the first one of a file takes the place of those before it -/
def addSource (url : Value) (s : State) : State :=
  let sources := if s.defaultSources then s.sources.clear else s.sources
  { s with sources := sources.append url, defaultSources := false }.note .debug .sources
    ("Adding gem source " ++ url.text)

end State

def Action.perform (g : Setting) (place : Place) (block : State → Outcome) :
    Action → State → Outcome
  | .gem name requirements options, s =>
    (s.declare g name requirements options).mapFault (Fault.located place)
  | .group names, s => s.inGroups names block
  | .platform what, s => s.onPlatform what block
  | .ruby version options, s => s.checkRuby g version options
  | .source url, s => .done (s.addSource url)

def Statement.Kind.run (kind : Kind) (g : Setting) (place : Place) (args : List Value)
    (options : Options) (block : Option (State → Outcome)) (s : State) : Outcome :=
  let s :=
    if block.isSome && !Action.takesBlock kind then
      s.note .warning .evaluation
        ("Ignoring the block passed to `" ++ kind.name ++ "' in " ++ place.text)
    else s
  match Action.of kind args options block.isSome with
  | .error m => .failed s (.misuse m place)
  | .ok action => action.perform g place (block.getD .done) s

mutual

def Statement.run (g : Setting) : Statement → State → Outcome
  | ⟨name, args, options, body, line⟩, s =>
    let place : Place := ⟨g.file, line⟩
    match Statement.Kind.ofName? name with
    | none => .failed s (.undefinedStatement name place)
    | some kind =>
      match body with
      | none => kind.run g place args options none s
      | some b => kind.run g place args options (some (Statement.runAll g b)) s

def Statement.runAll (g : Setting) : List Statement → State → Outcome
  | [], s => .done s
  | t :: ts, s => (Statement.run g t s).andThen (Statement.runAll g ts)

end

namespace State

def execute (g : Setting) (text : List Char) (s : State) : Outcome :=
  match Statement.parse text with
  | .error f => .failed s (.spelling g.path.text f)
  | .ok statements => Statement.runAll g statements s

def load (g : Setting) (contents : Except FileFault String) (s : State) : Outcome :=
  let s := s.note .debug .evaluation ("Loading gem dependencies from " ++ g.path.text)
  match contents with
  | .error f => .failed s (.file f)
  | .ok text => s.execute g text.toList

end State

theorem Statement.runAll_nil (g : Setting) (s : State) : Statement.runAll g [] s = .done s := by
  rw [Statement.runAll]

theorem Statement.runAll_cons (g : Setting) (t : Statement) (ts : List Statement) (s : State) :
    Statement.runAll g (t :: ts) s = (Statement.run g t s).andThen (Statement.runAll g ts) := by
  rw [Statement.runAll]

end Gemfile
