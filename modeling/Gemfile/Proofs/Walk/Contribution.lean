import Gemfile.Proofs.Walk.Run

/-!
# What the events of a walk add

What a run adds is seen from its events and from the interpreters remembered at its start.

* `Event.contribution`, `Event.contributions`   what an event adds, and events in order
* `Event.runAll_contributes`       their run adds that to any state
* `Statement.runAll_contributes`, `Statement.runAll_of_contribution`   so does the run of statements,
                                   and it ends well if that has no fault
-/

namespace Gemfile

namespace Event

def contribution (g : Setting) : Event → Interpreter.Memory → Contribution
  | .gem c, m => (c.contribution g.without m).located c.place
  | .ruby version options, m => g.checked version options m
  | .source url, m => { urls := [url], detected := m }
  | .remark _, m => { detected := m }
  | .fault f, m => { detected := m, fault := some f }
  | .enter _, m => { detected := m }
  | .leave, m => { detected := m }

def contributions (g : Setting) : List Event → Interpreter.Memory → Contribution
  | [], m => { detected := m }
  | e :: es, m => (e.contribution g m).andThen (contributions g es)

end Event

/-- what statements add that are run with some groups at hand -/
def Statement.contribution (g : Setting) (ts : List Statement) (carried : Option (List Value))
    (m : Interpreter.Memory) : Contribution :=
  Event.contributions g (walkAll g.file ts carried).events m

namespace Event
variable {g : Setting} {s : State}

theorem run_contributes (e : Event) (hs : s.currentGroups = none) :
    Contributes (e.contribution g s.detected) s (e.run g s) := by
  cases e with
  | gem c =>
    obtain ⟨log, h⟩ := State.declare_contributes g (c := c)
      (s := { s with currentGroups := c.carried }) rfl
    refine ⟨log, ?_⟩
    show ((State.declare g c.name c.requirements c.options _).mapFault _).mapState _ = _
    rw [h]
    show (⟨{ (c.contribution g.without s.detected).applied s with
      currentGroups := none, log := log }, _⟩ : Outcome) = _
    rw [← hs]
    rfl
  | ruby version options =>
    obtain ⟨entries, h⟩ := State.checkRuby_eq g version options s.detected
    obtain ⟨m, f, hk, _⟩ := g.checked_eq version options s.detected
    have h1 := h s rfl
    show Contributes (g.checked version options s.detected) s (s.checkRuby g version options)
    rw [hk] at h1 ⊢
    rw [h1]
    exact .of_log f _
  | source url =>
    refine ⟨(s.addSource url).log, ?_⟩
    show Outcome.done (s.addSource url) = _
    unfold State.addSource contribution Contribution.applied
    rw [List.append_nil]
    cases s.defaultSources <;> rfl
  | remark entry => exact .of_log none _
  | fault f => exact .of_log _ s.log
  | enter names => exact .of_log none s.log
  | leave => exact .of_log none s.log

theorem runAll_contributes (es : List Event) (hs : s.currentGroups = none) :
    Contributes (contributions g es s.detected) s (runAll g es s) := by
  induction es generalizing s with
  | nil => exact .of_log none s.log
  | cons e es ih =>
    have h := e.run_contributes (g := g) hs
    refine h.andThen fun _ => ih ?_
    obtain ⟨log, h⟩ := h
    rw [h]
    exact hs

lemma runAll_currentGroups (es : List Event) (hs : s.currentGroups = none) :
    (runAll g es s).state.currentGroups = none := by
  obtain ⟨log, h⟩ := runAll_contributes (g := g) es hs
  rw [h]
  exact hs

end Event

/-- a run adds the contribution of its statements to the stores, from any state -/
theorem Statement.runAll_contributes (g : Setting) (ts : List Statement) (s : State) :
    Contributes (contribution g ts s.currentGroups s.detected) s.leave
      ((runAll g ts s).mapState State.leave) := by
  rw [(runAll_follows g ts).effect s]
  exact Event.runAll_contributes _ rfl

/-- so it ends well if its contribution has no fault -/
theorem Statement.runAll_of_contribution {g : Setting} {ts : List Statement} {s : State}
    (h : (contribution g ts s.currentGroups s.detected).fault = none) :
    ∃ log, runAll g ts s = .done { (contribution g ts s.currentGroups s.detected).applied s with
      currentGroups := (walkAll g.file ts s.currentGroups).carried, log := log } := by
  obtain ⟨log, h1⟩ := runAll_contributes g ts s
  have hc := (runAll_follows g ts).carried s
  rcases hr : runAll g ts s with ⟨t, f⟩
  rw [hr] at h1 hc
  obtain ⟨hl, hf⟩ := Outcome.mk.inj h1
  obtain rfl : f = none := hf.trans h
  refine ⟨log, ?_⟩
  have ht : t = { t.leave with currentGroups := t.currentGroups } := rfl
  rw [ht, hl, hc rfl]
  rfl

end Gemfile
