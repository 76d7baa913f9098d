import Gemfile.Signal
import Gemfile.Text.Blank
import Gemfile.Text.Quoted

/-!
# The Ruby that evaluates a file

* `Interpreter`          its version and engine
* `Probe`                what looking an interpreter up and asking it for its version gives
* `Probe.interpreter`    the interpreter that a probe finds, or why it finds none
* `Interpreter.Memory`   the interpreters found so far; a failure is not remembered
-/

namespace Gemfile

structure Interpreter where
  version : String
  engine : String
  engineVersion : Option String
deriving DecidableEq

/-- the reference interpreter, and the platform it is -/
def nativePlatform : String := "ruby"

namespace Interpreter

/-- the reference interpreter in a version -/
def native (version : String) : Interpreter := ⟨version, nativePlatform, none⟩

def text (i : Interpreter) : String :=
  match i.engineVersion with
  | none => i.engine ++ " " ++ i.version
  | some v =>
    if i.engine = nativePlatform then i.engine ++ " " ++ i.version
    else i.engine ++ " " ++ v ++ " (ruby " ++ i.version ++ ")"

end Interpreter

/-- what asking an interpreter for its version gives -/
inductive Probe.Answer where
  | output (s : String)
  | failure (why : String)
  /-- a status below zero is the number of the signal that stopped the interpreter -/
  | exit (status : Int)
deriving DecidableEq

structure Probe where
  location : Option String
  answer : Probe.Answer
deriving DecidableEq

inductive InterpreterFault where
  | notFound (executable : String)
  | noAnswer (location why : String)
  | unexpected (location output : String)
deriving DecidableEq

def InterpreterFault.message : InterpreterFault → String
  | .notFound executable => executable ++ " executable not found in PATH"
  | .noAnswer location why => "Unable to query " ++ location ++ " for its version: " ++ why
  | .unexpected location output =>
    "Unexpected output from " ++ location ++ ": " ++ Text.quoted output

namespace Probe

def absent : Probe := ⟨none, .output ""⟩

/-- how an interpreter ended -/
def ending (status : Int) : String :=
  "Command '['ruby']' " ++
    (if status < 0 then Signal.ending status.natAbs
      else "returned non-zero exit status " ++ toString status) ++ "."

/-- an answer is three words: the version, the engine and the engine's version -/
def interpreter (p : Probe) (executable : String) : Except InterpreterFault Interpreter :=
  match p.location with
  | none => .error (.notFound executable)
  | some location =>
    match p.answer with
    | .failure why => .error (.noAnswer location why)
    | .exit status => .error (.noAnswer location (ending status))
    | .output s =>
      match Text.words s.toList with
      | [version, engine, engineVersion] =>
        .ok ⟨String.ofList version, String.ofList engine, some (String.ofList engineVersion)⟩
      | _ => .error (.unexpected location s)

end Probe

abbrev Interpreter.Memory := List (String × Interpreter)

namespace Interpreter.Memory

/-- the interpreter looked up under a name: the one remembered, or else the one that the probe
finds, which is remembered from then on -/
def detect (m : Memory) (executable : String) (p : Probe) :
    Except InterpreterFault (Interpreter × Memory) :=
  match m.lookup executable with
  | some i => .ok (i, m)
  | none => (p.interpreter executable).map fun i => (i, (executable, i) :: m)

end Interpreter.Memory

end Gemfile
