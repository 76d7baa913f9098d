import Gemfile.Evaluation.Run
import Gemfile.Proofs.Contribution
import Gemfile.Proofs.Options

/-!
# What a `ruby` statement changes

* `Options.engineAlone`  an engine is named, and no version of it
* `Setting.asked`        the interpreter that is asked for
* `Setting.checked`      the contribution of a `ruby` statement
* `State.checkRuby_of_engineAlone`, `State.checkRuby_of_error`, `State.checkRuby_of_ok`   its cases
* `State.checkRuby_eq`   what it changes is what is remembered and the log; the rest of the state makes
                         no difference to it
-/

namespace Gemfile

def Options.engineAlone (o : Options) : Bool :=
  (o.value? "engine").isSome && (o.value? "engine_version").isNone

/-- the interpreter that is asked for, and those remembered then -/
def Setting.asked (g : Setting) (m : Interpreter.Memory) :
    Except Fault (Interpreter × Interpreter.Memory) :=
  match g.interpreter with
  | some i => .ok (i, m)
  | none =>
    match m.detect nativePlatform g.probe with
    | .error f => .error (.interpreter f)
    | .ok r => .ok r

/-- a fault of the interpreter that evaluates a file, or of the search for it -/
def Fault.ofInterpreter : Fault → Bool
  | .engineWithoutVersion => true
  | .otherVersion _ _ _ => true
  | .otherEngine _ _ _ => true
  | .interpreter _ => true
  | _ => false

lemma Setting.asked_error {g : Setting} {m : Interpreter.Memory} {f : Fault}
    (h : g.asked m = .error f) : f.ofInterpreter = true := by
  unfold asked at h
  split at h
  · cases h
  · split at h
    · cases h
      rfl
    · cases h

lemma State.interpreterFault?_mem {file : String} {i : Interpreter} {version : Value}
    {engine : Option Value} {f : Fault} (h : f ∈ interpreterFault? file i version engine) :
    f.ofInterpreter = true := by
  unfold interpreterFault? at h
  split at h
  · cases h
    rfl
  · split at h
    · cases h
    · split at h
      · cases h
        rfl
      · cases h

/-- a `ruby` statement adds nothing but the interpreter that it asked for -/
def Setting.checked (g : Setting) (version : Value) (options : Options) (m : Interpreter.Memory) :
    Contribution :=
  if options.engineAlone then { detected := m, fault := some .engineWithoutVersion }
  else
    match g.asked m with
    | .error f => { detected := m, fault := some f }
    | .ok (i, m') =>
      { detected := m'
        fault := State.interpreterFault? g.file i version (options.value? "engine") }

lemma Setting.checked_eq (g : Setting) (version : Value) (options : Options)
    (m : Interpreter.Memory) :
    ∃ m' f, g.checked version options m = { detected := m', fault := f } ∧
      ∀ f' ∈ f, f'.ofInterpreter = true := by
  unfold checked
  by_cases he : options.engineAlone = true
  · simp only [if_pos he]
    exact ⟨_, _, rfl, by simp [Fault.ofInterpreter]⟩
  · simp only [if_neg he]
    cases ha : g.asked m with
    | error f =>
      refine ⟨_, _, rfl, ?_⟩
      rintro f' ⟨⟩
      exact Setting.asked_error ha
    | ok r => exact ⟨_, _, rfl, fun f' hf => State.interpreterFault?_mem hf⟩

namespace State

lemma interpreter_eq (g : Setting) (m : Interpreter.Memory) :
    ∃ entries, ∀ s : State, s.detected = m → s.interpreter g = (g.asked m).map fun r =>
      (r.1, ({ s with detected := r.2 } : State).write entries) := by
  unfold interpreter Setting.asked
  cases g.interpreter with
  | some i =>
    refine ⟨[], ?_⟩
    rintro s rfl
    show Except.ok (i, s) = .ok (i, s.write [])
    rw [write_nil]
  | none =>
    dsimp only
    cases hd : m.detect nativePlatform g.probe with
    | error f =>
      refine ⟨[], ?_⟩
      rintro s rfl
      rw [hd]
      rfl
    | ok r =>
      obtain ⟨i, m'⟩ := r
      by_cases hl : (m.lookup nativePlatform).isSome = true
      · refine ⟨[], ?_⟩
        rintro s rfl
        simp only [hd, if_pos hl, write_nil, Except.map]
      · refine ⟨[⟨.debug, .interpreter,
          "Detected " ++ i.text ++ " at " ++ g.probe.location.getD ""⟩], ?_⟩
        rintro s rfl
        simp only [hd, if_neg hl]
        rfl

lemma checkRuby_of_engineAlone {options : Options} (h : options.engineAlone = true) (g : Setting)
    (version : Value) (s : State) :
    s.checkRuby g version options = .failed s .engineWithoutVersion := by
  unfold Options.engineAlone at h
  unfold checkRuby
  simp only [given_eq]
  rw [if_pos h]

section
variable {options : Options} (h : ¬ options.engineAlone = true) {g : Setting} (version : Value)
  {s t : State}
include h

lemma checkRuby_of_error {f : Fault} (hi : s.interpreter g = .error f) :
    s.checkRuby g version options = .failed s f := by
  unfold Options.engineAlone at h
  unfold checkRuby
  simp only [given_eq]
  rw [if_neg h, hi]

lemma checkRuby_of_ok {i : Interpreter} (hi : s.interpreter g = .ok (i, t)) :
    s.checkRuby g version options =
      ⟨t, interpreterFault? g.file i version (options.value? "engine")⟩ := by
  unfold Options.engineAlone at h
  unfold checkRuby
  simp only [given_eq]
  rw [if_neg h, hi]
  dsimp only
  cases interpreterFault? g.file i version (options.value? "engine") <;> rfl

end

theorem checkRuby_eq (g : Setting) (version : Value) (options : Options) (m : Interpreter.Memory) :
    ∃ entries, ∀ s : State, s.detected = m → s.checkRuby g version options =
      ⟨({ s with detected := (g.checked version options m).detected } : State).write entries,
        (g.checked version options m).fault⟩ := by
  unfold Setting.checked
  by_cases he : options.engineAlone = true
  · refine ⟨[], ?_⟩
    rintro s rfl
    rw [checkRuby_of_engineAlone he, if_pos he, write_nil]
    rfl
  · obtain ⟨entries, hi⟩ := interpreter_eq g m
    simp only [if_neg he]
    cases ha : g.asked m with
    | error f =>
      refine ⟨[], ?_⟩
      rintro s hs
      rw [checkRuby_of_error he version (by rw [hi s hs, ha]; rfl), write_nil, ← hs]
      rfl
    | ok r =>
      refine ⟨entries, ?_⟩
      rintro s hs
      rw [checkRuby_of_ok he version (by rw [hi s hs, ha]; rfl)]

end State

end Gemfile
