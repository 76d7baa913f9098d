import Gemfile.Evaluation.Gem
import Mathlib.Tactic.Lemma

/-!
# What a run adds to the stores

No statement looks into the stores that it changes.  What a run adds to them is the same from any
state, and so is the fault that stops it.

* `Contribution`           what is added, in order, and the fault behind it
* `Contribution.applied`   a state with a contribution behind what it holds
* `Contributes k s o`      the outcome `o` is `s` with `k` added, and with some log
-/

namespace Gemfile

structure Contribution where
  /-- the directories that are registered -/
  registered : Table Scalar Path := []
  /-- the declarations that are recorded, each with its group -/
  recorded : List (Scalar × Declaration) := []
  requests : List Dependency := []
  /-- the sources that are named -/
  urls : List Value := []
  /-- the interpreters that are remembered in the end -/
  detected : Interpreter.Memory
  fault : Option Fault := none

namespace Contribution

def append (k l : Contribution) : Contribution where
  registered := k.registered ++ l.registered
  recorded := k.recorded ++ l.recorded
  requests := k.requests ++ l.requests
  urls := k.urls ++ l.urls
  detected := l.detected
  fault := l.fault

/-- goes on with what is remembered in the end, unless a fault stopped it -/
def andThen (k : Contribution) (next : Interpreter.Memory → Contribution) : Contribution :=
  match k.fault with
  | some _ => k
  | none => k.append (next k.detected)

/-- the sources behind some that a file names: its first one takes the place of those before it -/
def named (defaultSources : Bool) (sources : Sources) (urls : List Value) : Sources :=
  if urls.isEmpty then sources else ⟨(if defaultSources then [] else sources.urls) ++ urls⟩

def applied (k : Contribution) (s : State) : State :=
  { s with
    requests := s.requests ++ k.requests
    vendored := ⟨s.vendored.directories.putAll k.registered⟩
    groups := k.recorded.foldl (fun t e => addTo e.1 e.2 t) s.groups
    sources := named s.defaultSources s.sources k.urls
    defaultSources := k.urls.isEmpty && s.defaultSources
    detected := k.detected }

def located (place : Place) (k : Contribution) : Contribution :=
  { k with fault := k.fault.map (Fault.located place) }

lemma andThen_of_none {k : Contribution} (h : k.fault = none)
    (next : Interpreter.Memory → Contribution) : k.andThen next = k.append (next k.detected) := by
  unfold andThen
  rw [h]

lemma andThen_fault {k : Contribution} {next : Interpreter.Memory → Contribution}
    (h : (k.andThen next).fault = none) : k.fault = none ∧ (next k.detected).fault = none := by
  cases hf : k.fault with
  | some f =>
    unfold andThen at h
    rw [hf] at h
    dsimp only at h
    rw [hf] at h
    cases h
  | none =>
    rw [andThen_of_none hf] at h
    exact ⟨rfl, h⟩

lemma named_append (b : Bool) (sources : Sources) (us vs : List Value) :
    named b sources (us ++ vs) = named (us.isEmpty && b) (named b sources us) vs := by
  unfold named
  cases us with
  | nil => rfl
  | cons u us =>
    cases vs with
    | nil => simp
    | cons v vs => simp

lemma applied_andThen {k : Contribution} (h : k.fault = none)
    (next : Interpreter.Memory → Contribution) (s : State) :
    (k.andThen next).applied s = (next k.detected).applied (k.applied s) := by
  rw [andThen_of_none h]
  unfold append applied
  simp only [List.append_assoc, List.foldl_append, named_append, State.mk.injEq, true_and, and_true,
    Vendored.mk.injEq]
  refine ⟨List.foldl_append .., ?_⟩
  cases k.urls <;> simp

lemma applied_empty (m : Interpreter.Memory) (f : Option Fault) (s : State) :
    applied { detected := m, fault := f } s = { s with detected := m } := by
  unfold applied
  rw [List.append_nil]
  rfl

end Contribution

/-- an outcome that adds a contribution to a state, and to the log in some way -/
def Contributes (k : Contribution) (s : State) (o : Outcome) : Prop :=
  ∃ log, o = ⟨{ k.applied s with log := log }, k.fault⟩

namespace Contributes
variable {s : State}

lemma of_log {m : Interpreter.Memory} (f : Option Fault) (log : List Log.Entry) :
    Contributes { detected := m, fault := f } s ⟨{ s with detected := m, log := log }, f⟩ := by
  refine ⟨log, ?_⟩
  rw [Contribution.applied_empty]

lemma andThen {k : Contribution} {o : Outcome} {next : Interpreter.Memory → Contribution}
    {rest : State → Outcome} (h : Contributes k s o)
    (h' : k.fault = none → Contributes (next o.state.detected) o.state (rest o.state)) :
    Contributes (k.andThen next) s (o.andThen rest) := by
  obtain ⟨log, rfl⟩ := h
  cases hf : k.fault with
  | some f =>
    refine ⟨log, ?_⟩
    unfold Contribution.andThen Outcome.andThen
    rw [hf]
    dsimp only
    rw [hf]
  | none =>
    obtain ⟨log', h1⟩ := h' hf
    refine ⟨log', ?_⟩
    rw [Contribution.applied_andThen hf, Contribution.andThen_of_none hf]
    exact h1

end Contributes

end Gemfile
