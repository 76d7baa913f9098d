import Gemfile.Proofs.Walk.Contribution

/-!
# The events that a run goes through

* `Event.performed g es s`   the events of `es` up to the one that fails, which is not one of them
* `Event.runAll_performed`   these go through by themselves, and what fails is the next event in the
                             state behind them
* `Event.runAll_sources`     the sources behind a run are seen from the sources that these name
-/

namespace Gemfile

namespace Event
variable {g : Setting}

def performed (g : Setting) : List Event → State → List Event
  | [], _ => []
  | e :: es, s =>
    match e.run g s with
    | ⟨t, none⟩ => e :: performed g es t
    | ⟨_, some _⟩ => []

lemma performed_of_done {e : Event} {s t : State} (h : e.run g s = .done t) (es : List Event) :
    performed g (e :: es) s = e :: performed g es t := by
  rw [performed, h]
  rfl

lemma performed_of_failed {e : Event} {s t : State} {f : Fault} (h : e.run g s = .failed t f)
    (es : List Event) : performed g (e :: es) s = [] := by
  rw [performed, h]
  rfl

lemma runAll_of_done {e : Event} {s t : State} (h : e.run g s = .done t) (es : List Event) :
    runAll g (e :: es) s = runAll g es t := by
  rw [runAll, h]
  rfl

lemma runAll_of_failed {e : Event} {s t : State} {f : Fault} (h : e.run g s = .failed t f)
    (es : List Event) : runAll g (e :: es) s = .failed t f := by
  rw [runAll, h]
  rfl

/-- an event goes through or fails -/
lemma run_cases (g : Setting) (e : Event) (s : State) :
    (∃ t, e.run g s = .done t) ∨ ∃ t f, e.run g s = .failed t f := by
  rcases e.run g s with ⟨t, f⟩
  cases f with
  | none => exact .inl ⟨t, rfl⟩
  | some f => exact .inr ⟨t, f, rfl⟩

theorem runAll_performed (g : Setting) (es : List Event) (s : State) :
    ∃ u, runAll g (performed g es s) s = .done u ∧
      (performed g es s = es ∧ runAll g es s = .done u ∨
        ∃ e rest f, es = performed g es s ++ e :: rest ∧ (runAll g es s).fault = some f ∧
          runAll g es s = e.run g u) := by
  induction es generalizing s with
  | nil => exact ⟨s, rfl, .inl ⟨rfl, rfl⟩⟩
  | cons e es ih =>
    rcases run_cases g e s with ⟨t, h⟩ | ⟨t, f, h⟩
    · obtain ⟨u, hu, h1⟩ := ih t
      rw [performed_of_done h, runAll_of_done h, runAll_of_done h]
      refine ⟨u, hu, ?_⟩
      rcases h1 with ⟨hp, hr⟩ | ⟨e', rest, f, hp, hf, hr⟩
      · exact .inl ⟨congrArg (e :: ·) hp, hr⟩
      · exact .inr ⟨e', rest, f, congrArg (e :: ·) hp, hf, hr⟩
    · rw [performed_of_failed h, runAll_of_failed h]
      exact ⟨s, rfl, .inr ⟨e, es, f, rfl, rfl, h.symm⟩⟩

lemma performed_of_runAll {es : List Event} {s : State} (h : (runAll g es s).fault = none) :
    performed g es s = es := by
  obtain ⟨_, _, ⟨hp, _⟩ | ⟨e, rest, f, _, hf, _⟩⟩ := runAll_performed g es s
  · exact hp
  · rw [h] at hf
    cases hf

/-- the source that an event names -/
def url? : Event → Option Value
  | .source url => some url
  | _ => none

lemma contribution_urls (g : Setting) (e : Event) (m : Interpreter.Memory) :
    (e.contribution g m).urls = e.url?.toList := by
  cases e with
  | gem c =>
    show (c.contribution g.without m).urls = []
    rcases c.contribution_cases with ⟨es, v, hk⟩ | ⟨_, hk⟩
    · rw [hk]
    · rw [hk]
      cases c.routed g.without c.groups <;> rfl
  | ruby version options =>
    obtain ⟨m', f, h, _⟩ := g.checked_eq version options m
    exact congrArg Contribution.urls h
  | source url => rfl
  | remark entry => rfl
  | fault f => rfl
  | enter names => rfl
  | leave => rfl

lemma url?_of_failed {e : Event} {s t : State} {f : Fault} (h : e.run g s = .failed t f) :
    e.url? = none := by
  cases e with
  | source url => cases h
  | _ => rfl

lemma run_sources {e : Event} {s : State} (hs : s.currentGroups = none) :
    (e.run g s).state.sources =
        Contribution.named s.defaultSources s.sources e.url?.toList ∧
      (e.run g s).state.defaultSources = (e.url?.toList.isEmpty && s.defaultSources) ∧
      (e.run g s).state.currentGroups = none := by
  obtain ⟨log, h⟩ := e.run_contributes (g := g) hs
  rw [h, ← contribution_urls g e s.detected]
  exact ⟨rfl, rfl, hs⟩

theorem runAll_sources (es : List Event) {s : State} (hs : s.currentGroups = none) :
    (runAll g es s).state.sources =
        Contribution.named s.defaultSources s.sources ((performed g es s).filterMap url?) ∧
      (runAll g es s).state.defaultSources =
        (((performed g es s).filterMap url?).isEmpty && s.defaultSources) := by
  induction es generalizing s with
  | nil => exact ⟨rfl, rfl⟩
  | cons e es ih =>
    have h1 := e.run_sources (g := g) hs
    rcases run_cases g e s with ⟨t, h⟩ | ⟨t, f, h⟩
    · rw [h] at h1
      obtain ⟨h1, h2, h3⟩ : t.sources = _ ∧ t.defaultSources = _ ∧ t.currentGroups = _ := h1
      have hu : (e :: performed g es t).filterMap url? =
          e.url?.toList ++ (performed g es t).filterMap url? := by
        rw [List.filterMap_cons]
        cases e.url? <;> rfl
      obtain ⟨h4, h5⟩ := ih h3
      rw [runAll_of_done h, performed_of_done h, hu, Contribution.named_append, h4, h5, h1, h2]
      refine ⟨rfl, ?_⟩
      cases e.url? <;> simp
    · rw [h, url?_of_failed h] at h1
      rw [runAll_of_failed h, performed_of_failed h]
      exact ⟨h1.1, h1.2.1⟩

/-- events that all go through name the sources of all of them -/
lemma sources_of_runAll {es : List Event} {s u : State} (hs : s.currentGroups = none)
    (h : runAll g es s = .done u) :
    u.sources = Contribution.named s.defaultSources s.sources (es.filterMap url?) := by
  have h1 := (runAll_sources (g := g) es hs).1
  rw [performed_of_runAll (by rw [h]; rfl), h] at h1
  exact h1

end Event

end Gemfile
