import Gemfile.Dependency
import Gemfile.Sources
import Gemfile.Vendored

/-!
# The state of an evaluation

* `Setting`       what an evaluation is given and does not change
* `State`         what it changes: the stores that files share, the records of the file at hand, and
                  the log
* `State.fresh`   the state in which the next file starts
* `Outcome`       the state that a run reaches, and the fault that stopped it, if any

What a run changed before a fault stays changed.
-/

namespace Gemfile

structure Setting where
  path : Path
  /-- the groups whose gems are recorded and not requested -/
  without : List Scalar
  /-- the interpreter that `ruby` statements are checked against, if it is not to be detected -/
  interpreter : Option Interpreter
  probe : Probe

def Setting.file (g : Setting) : String := g.path.name

/-- a gem as a statement declares it, under the groups that it belongs to -/
structure Declaration where
  name : Value
  requirements : List Value
  options : Options
deriving DecidableEq

/-- the declaration as a list: the name, the requirements, and the options if there are any -/
def Declaration.toList (d : Declaration) : List Value :=
  d.name :: d.requirements ++ if d.options.isEmpty then [] else [.hash d.options]

structure State where
  /-- the requests, oldest first -/
  requests : List Dependency
  vendored : Vendored
  sources : Sources
  detected : Interpreter.Memory
  /-- the declarations of each group, the groups in the order in which they were first used -/
  groups : Table Scalar (List Declaration)
  /-- no source has been named by this file yet -/
  defaultSources : Bool
  /-- the names of the group block at hand -/
  currentGroups : Option (List Value)
  log : List Log.Entry

namespace State

def start (sources : Sources) : State := ⟨[], .empty, sources, [], [], true, none, []⟩

def fresh (s : State) : State :=
  { s with groups := [], defaultSources := true, currentGroups := none }

def write (s : State) (entries : List Log.Entry) : State := { s with log := s.log ++ entries }

def note (s : State) (level : Level) (channel : Log.Channel) (message : String) : State :=
  s.write [⟨level, channel, message⟩]

theorem write_nil (s : State) : s.write [] = s := by simp [write]

end State

structure Outcome where
  state : State
  fault : Option Fault

namespace Outcome

def done (s : State) : Outcome := ⟨s, none⟩

def failed (s : State) (f : Fault) : Outcome := ⟨s, some f⟩

/-- goes on from where the first part ended, unless a fault stopped it -/
def andThen (o : Outcome) (next : State → Outcome) : Outcome :=
  match o.fault with
  | none => next o.state
  | some _ => o

def mapState (o : Outcome) (f : State → State) : Outcome := { o with state := f o.state }

def mapFault (o : Outcome) (f : Fault → Fault) : Outcome := { o with fault := o.fault.map f }

/-- the new state, or the old one and the fault -/
def ofExcept (s : State) : Except Fault State → Outcome
  | .ok t => done t
  | .error f => failed s f

theorem done_andThen (s : State) (next : State → Outcome) : (done s).andThen next = next s := rfl
theorem failed_andThen (s : State) (f : Fault) (next : State → Outcome) :
    (failed s f).andThen next = failed s f := rfl

theorem andThen_done (o : Outcome) : o.andThen done = o := by
  obtain ⟨s, f⟩ := o
  cases f <;> rfl

theorem andThen_assoc (o : Outcome) (f g : State → Outcome) :
    (o.andThen f).andThen g = o.andThen fun s => (f s).andThen g := by
  obtain ⟨s, e⟩ := o
  cases e <;> rfl

end Outcome

end Gemfile
