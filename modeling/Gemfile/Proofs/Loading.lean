import Gemfile.Proofs.Walk.Performed

/-!
# Files loaded one after another

Each file is evaluated afresh, on top of the requests, the vendored gems and the sources that the
files before it have left, whether these failed or not.

* `Load`                a file with its setting, and what reading it gives
* `Load.run`            its evaluation
* `Load.statements`, `Load.events`   the statements of a file, and the events that they reach
* `Load.run_events`     the evaluation of a file is the run of its events
* `Load.runAll`         files in order
-/

namespace Gemfile

structure Load where
  setting : Setting
  contents : Except FileFault String

namespace Load

def run (l : Load) (s : State) : Outcome := s.fresh.load l.setting l.contents

/-- the state in which the statements of a file are run -/
def begun (l : Load) (s : State) : State :=
  s.fresh.note .debug .evaluation ("Loading gem dependencies from " ++ l.setting.path.text)

/-- the statements of a file, or why there are none -/
def read (l : Load) : Except Fault (List Statement) :=
  match l.contents with
  | .error f => .error (.file f)
  | .ok text =>
    match Statement.parse text.toList with
    | .error f => .error (.spelling l.setting.path.text f)
    | .ok ts => .ok ts

def statements (l : Load) : List Statement := l.read.toOption.getD []

def unread (l : Load) : Option Fault :=
  match l.read with
  | .error f => some f
  | .ok _ => none

def events (l : Load) : List Event := (Statement.walkAll l.setting.file l.statements none).events

lemma run_eq (l : Load) (s : State) :
    l.run s = match l.read with
      | .error f => .failed (l.begun s) f
      | .ok ts => Statement.runAll l.setting ts (l.begun s) := by
  unfold run State.load read
  cases l.contents with
  | error f => rfl
  | ok text =>
    show State.execute l.setting text.toList (l.begun s) = _
    unfold State.execute
    dsimp only
    cases Statement.parse text.toList <;> rfl

/-- a file that cannot be read is left like one without statements, but with a fault -/
theorem run_events (l : Load) (s : State) :
    l.run s = ⟨(Event.runAll l.setting l.events (l.begun s)).state,
      l.unread.or (Event.runAll l.setting l.events (l.begun s)).fault⟩ := by
  unfold events statements unread
  rw [run_eq]
  cases l.read with
  | error f =>
    show Outcome.failed (l.begun s) f = ⟨(Event.runAll l.setting
      (Statement.walkAll l.setting.file [] none).events (l.begun s)).state, some f⟩
    rw [Statement.walkAll_nil]
    rfl
  | ok ts => exact Statement.runAll_eq l.setting ts rfl

def runAll : List Load → State → State
  | [], s => s
  | l :: ls, s => runAll ls (l.run s).state

end Load

end Gemfile
