import Gemfile.Evaluation.Run
import Gemfile.Graph.Dot
import Gemfile.Report

/-!
# Sessions

A session drives one evaluation by single calls instead of a file, and may change the excluded
groups or start on another file in between.

* `Session`           the setting and the state at hand
* `Session.Call`      a call, with the calls of its block if it takes one
* `Session.perform`   a call without a block: its answer, and the session after it
* `Session.runAll`    some calls in order; every call leaves an entry in the trace, those of a block
                      before the call that it belongs to, and a fault ends the block that it is in
-/

namespace Gemfile

structure Session where
  setting : Setting
  state : State

namespace Session

inductive Call where
  | gem (args : List Value) (options : Options)
  | group (names : List Value) (body : List Call)
  | platform (what : Value) (body : List Call)
  | ruby (version : Value) (options : Options)
  | source (url : Value)
  | without (groups : Value)
  | withoutOne (group : Value)
  | execute (text : String)
  /-- goes on with another file and no excluded groups -/
  | begin (path : String)
  | request (args : List Value)
  | contains (name : Value)
  | requests
  | spec (name version platform source : Value)
  | resetSources
  | dot
  | interrupt

/-- a call without a block: its answer or its fault, and the session after it -/
abbrev Answered := Except Fault Value × Session

def withState (s : Session) (t : State) : Session := { s with state := t }

/-- what a run answers if it goes through -/
def ofOutcome (s : Session) (answer : Value) (o : Outcome) : Answered :=
  match o.fault with
  | none => (.ok answer, s.withState o.state)
  | some f => (.error f, s.withState o.state)

def ofExcept (s : Session) : Except Fault (Value × Session) → Answered
  | .ok (v, t) => (.ok v, t)
  | .error f => (.error f, s)

/-- the excluded groups that a value asks for: one text, or the elements of the value -/
def excluded (groups : Value) : Except Fault (List Scalar) :=
  match groups with
  | .str s => .ok [.str s]
  | v =>
    match v.elements? with
    | none => .error (.value .notElements)
    | some vs => (namesOf vs).map distinct

def isRequested (s : State) (name : Value) : Bool := s.requests.any fun d => d.name.equals name

/-- whether a gem is requested and vendored, and how many gems are -/
def membership (s : State) (name : Value) : Except Fault Value := do
  let vendored ← s.vendored.contains name
  return .list [.bool (isRequested s name), .bool vendored, .int s.requests.length,
    .int s.vendored.directories.length]

def specValue (s : Vendored.Spec) : Value :=
  .list [.str s.fullName, s.name, s.version, s.platform, .str s.directory.text, s.source]

def perform (s : Session) : Call → Answered
  | .gem [] _ => (.error (.value .missing), s)
  | .gem (name :: requirements) options =>
    s.ofOutcome .nil (s.state.declare s.setting name requirements options)
  | .ruby version options => s.ofOutcome (.bool true) (s.state.checkRuby s.setting version options)
  | .source url => (.ok .nil, s.withState (s.state.addSource url))
  | .without groups =>
    s.ofExcept ((excluded groups).map fun names =>
      (.nil, { s with setting := { s.setting with without := names } }))
  | .withoutOne group =>
    s.ofExcept ((Vendored.nameOf group).map fun name =>
      (.nil, { s with setting := { s.setting with
        without := distinct (s.setting.without ++ [name]) } }))
  | .execute text => s.ofOutcome .nil (s.state.execute s.setting text.toList)
  | .begin path =>
    (.ok .nil, ⟨{ s.setting with path := Path.ofText path, without := [] }, s.state.fresh⟩)
  | .request [] => (.error (.value .missing), s)
  | .request (name :: requirements) =>
    s.ofExcept ((s.state.request name requirements).map fun t =>
      (.str t.1.literal, s.withState t.2))
  | .contains name => s.ofExcept ((membership s.state name).map fun v => (v, s))
  | .requests => (.ok (.list (s.state.requests.map fun d => .str d.literal)), s)
  | .spec name version platform source =>
    s.ofExcept ((s.state.vendored.spec name version platform source).map fun t => (specValue t, s))
  | .resetSources => (.ok .nil, s.withState { s.state with sources := .standard })
  | .dot => s.ofExcept ((s.state.dot s.setting).map fun text => (.str text, s))
  | .interrupt => (.error .interrupted, s)
  | .group _ _ => (.ok .nil, s)
  | .platform _ _ => (.ok .nil, s)

/-- what a call did: its number, its answer, the messages since it began, and the session then -/
structure Entry where
  label : String
  answer : Except Fault Value
  messages : List Log.Entry
  after : Session

/-- the trace of some calls, the fault that ended them, and the session behind them -/
structure Traced where
  trace : List Entry
  fault : Option Fault
  session : Session

def entry (label : String) (before : Session) (answered : Answered) : Entry :=
  ⟨label, answered.1, answered.2.state.log.drop before.state.log.length, answered.2⟩

def faultOf : Except Fault Value → Option Fault
  | .ok _ => none
  | .error f => some f

def closed (label : String) (before : Session) (trace : List Entry) (answered : Answered) :
    Traced :=
  ⟨trace ++ [entry label before answered], faultOf answered.1, answered.2⟩

def ofBlock (t : Traced) : Except Fault Value :=
  match t.fault with
  | none => .ok .nil
  | some f => .error f

def enter (names : List Value) (s : Session) : Session :=
  s.withState { s.state with currentGroups := some names }

def leave (s : Session) : Session := s.withState { s.state with currentGroups := none }

mutual

def run (label : String) : Call → Session → Traced
  | .group names body, s =>
    let t := runBlock (label ++ ".") 0 body (s.enter names)
    closed label s t.trace (ofBlock t, t.session.leave)
  | .platform what body, s =>
    if what = .str nativePlatform then
      let t := runBlock (label ++ ".") 0 body s
      closed label s t.trace (ofBlock t, t.session)
    else closed label s [] (s.ofOutcome .nil (s.state.onPlatform what .done))
  | call, s => closed label s [] (s.perform call)

/-- the calls of a block from number `i` on, up to the first fault -/
def runBlock (start : String) (i : Nat) : List Call → Session → Traced
  | [], s => ⟨[], none, s⟩
  | call :: calls, s =>
    let t := run (start ++ i.repr) call s
    match t.fault with
    | some _ => t
    | none =>
      let u := runBlock start (i + 1) calls t.session
      ⟨t.trace ++ u.trace, u.fault, u.session⟩

end

/-- calls outside of any block, of which the first has number `i`: a fault ends none but its own -/
def runFrom (i : Nat) : List Call → Session → Traced
  | [], s => ⟨[], none, s⟩
  | call :: calls, s =>
    let t := run i.repr call s
    let u := runFrom (i + 1) calls t.session
    ⟨t.trace ++ u.trace, none, u.session⟩

def runAll (calls : List Call) (s : Session) : List Entry := (runFrom 0 calls s).trace

end Session

end Gemfile
