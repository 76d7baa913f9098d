import Gemfile.Proofs.Walk.Performed

/-!
# The groups at hand behind a run

A run from inside a group block goes on with the names of that block until it enters a block of its
own; from then on no names are at hand behind it, however it ends.

* `Event.behind`           the groups at hand behind some events
* `Event.performed_append_of_done`, `Event.performed_append_of_failed`   the events that a run in two
                           parts goes through
* `Leaves g run walk`      `run` leaves at hand what the events that it goes through leave
* `Statement.runAll_events`   so every run is the run of its events, wherever it starts
* `Event.through`          the events that go through, seen from what is remembered alone
* `Statement.runAll_through`  so every run adds the contribution of its events to the state it starts in
-/

namespace Gemfile

namespace Event
variable {g : Setting}

/-- the groups at hand behind some events -/
def behind (es : List Event) (carried : Option (List Value)) : Option (List Value) :=
  if es.any enters then none else carried

lemma behind_append (es fs : List Event) (carried : Option (List Value)) :
    behind (es ++ fs) carried = behind fs (behind es carried) := by
  unfold behind
  rw [List.any_append]
  cases es.any enters <;> cases fs.any enters <;> rfl

lemma performed_append_of_done {es : List Event} {s t : State} (h : runAll g es s = .done t)
    (fs : List Event) : performed g (es ++ fs) s = es ++ performed g fs t := by
  induction es generalizing s with
  | nil =>
    cases h
    rfl
  | cons e es ih =>
    obtain ⟨u, h1, h2⟩ := Outcome.andThen_eq_done.mp h
    rw [List.cons_append, performed_of_done h1, ih h2]
    rfl

lemma performed_append_of_failed {es : List Event} {s t : State} {f : Fault}
    (h : runAll g es s = .failed t f) (fs : List Event) :
    performed g (es ++ fs) s = performed g es s := by
  induction es generalizing s with
  | nil => cases h
  | cons e es ih =>
    rcases run_cases g e s with ⟨u, h1⟩ | ⟨u, f', h1⟩
    · rw [runAll_of_done h1] at h
      rw [List.cons_append, performed_of_done h1, performed_of_done h1, ih h]
    · rw [List.cons_append, performed_of_failed h1, performed_of_failed h1]

end Event

/-- `run` leaves at hand what the events that it goes through leave, be it that it fails -/
def Leaves (g : Setting) (run : State → Outcome) (walk : Option (List Value) → Walk) : Prop :=
  ∀ s, (run s).state.currentGroups =
    Event.behind (Event.performed g (walk s.currentGroups).events s.leave) s.currentGroups

namespace Leaves
variable {g : Setting} {run next : State → Outcome} {walk walk' : Option (List Value) → Walk}

lemma one {e : Option (List Value) → Event} (h : Performs g run e) :
    Leaves g run fun carried => .one (e carried) carried := by
  intro s
  rw [h.groups s]
  show _ = Event.behind (Event.performed g [e s.currentGroups] s.leave) s.currentGroups
  rcases Event.run_cases g (e s.currentGroups) s.leave with ⟨t, h1⟩ | ⟨t, f, h1⟩
  · rw [Event.performed_of_done h1]
    simp [Event.behind, Event.performed, h.single]
  · rw [Event.performed_of_failed h1]
    rfl

lemma andThen (hf : Follows g run walk) (h : Leaves g run walk) (h' : Leaves g next walk') :
    Leaves g (fun s => (run s).andThen next) fun carried => (walk carried).andThen walk' := by
  intro s
  show ((run s).andThen next).state.currentGroups = Event.behind (Event.performed g
    ((walk s.currentGroups).events ++ (walk' (walk s.currentGroups).carried).events) s.leave)
    s.currentGroups
  have h1 := h s
  have he := hf.effect s
  have hc := hf.carried s
  rcases hr : run s with ⟨t, f⟩
  rw [hr] at h1 he hc
  cases f with
  | some f =>
    rw [Event.performed_append_of_failed he.symm]
    exact h1
  | none =>
    -- all events of the first part have been gone through, and the second part starts from what they
    -- carry on
    have hall : Event.performed g (walk s.currentGroups).events s.leave =
        (walk s.currentGroups).events := Event.performed_of_runAll (by rw [← he]; rfl)
    rw [hall] at h1
    rw [Event.performed_append_of_done he.symm, Event.behind_append, ← h1, ← hc rfl]
    exact h' t

end Leaves

theorem runAll_leaves (g : Setting) (ts : List Statement) :
    Leaves g (Statement.runAll g ts) (Statement.walkAll g.file ts) := by
  have closed : Runs.Closed g fun run walk => Follows g run walk ∧ Leaves g run walk := by
    constructor
    · exact ⟨.stay g, fun _ => rfl⟩
    · exact fun _ _ h => ⟨.one h, .one h⟩
    · exact fun h h' => ⟨h.1.andThen h'.1, .andThen h.1 h.2 h'.2⟩
    · exact fun names h => ⟨h.1.inGroups names, fun _ => rfl⟩
  exact (closed.runAll ts).2

/-- the events that statements reach from a state, if nothing fails -/
def Statement.eventsFrom (g : Setting) (ts : List Statement) (s : State) : List Event :=
  (walkAll g.file ts s.currentGroups).events

/-- a run is that of its events from outside every group block, but for the groups at hand behind it -/
theorem Statement.runAll_events (g : Setting) (ts : List Statement) (s : State) :
    runAll g ts s = (Event.runAll g (eventsFrom g ts s) s.leave).mapState fun t =>
      { t with currentGroups :=
          Event.behind (Event.performed g (eventsFrom g ts s) s.leave) s.currentGroups } := by
  have h := (runAll_follows g ts).effect s
  have hl := runAll_leaves g ts s
  show _ = (Event.runAll g (walkAll g.file ts s.currentGroups).events s.leave).mapState _
  rw [← h]
  rcases hr : runAll g ts s with ⟨t, f⟩
  rw [hr] at hl
  show (⟨t, f⟩ : Outcome) = ⟨{ t with currentGroups := _ }, f⟩
  rw [show eventsFrom g ts s = (walkAll g.file ts s.currentGroups).events from rfl, ← hl]

namespace Event
variable {g : Setting}

/-- the events up to the one that fails, if this is remembered at the start -/
def through (g : Setting) : List Event → Interpreter.Memory → List Event
  | [], _ => []
  | e :: es, m =>
    match (e.contribution g m).fault with
    | none => e :: through g es (e.contribution g m).detected
    | some _ => []

lemma performed_eq_through (es : List Event) {s : State} (hs : s.currentGroups = none) :
    performed g es s = through g es s.detected := by
  induction es generalizing s with
  | nil => rfl
  | cons e es ih =>
    obtain ⟨log, h⟩ := e.run_contributes (g := g) hs
    rw [performed, through, h]
    cases (e.contribution g s.detected).fault with
    | none => exact congrArg (e :: ·) (ih hs)
    | some f => rfl

end Event

/-- a run adds the contribution of its events to any state, and leaves at hand what those of them leave
that go through -/
theorem Statement.runAll_through (g : Setting) (ts : List Statement) (s : State) :
    ∃ log, runAll g ts s =
      ⟨{ (contribution g ts s.currentGroups s.detected).applied s with
          currentGroups :=
            Event.behind (Event.through g (eventsFrom g ts s) s.detected) s.currentGroups
          log := log },
        (contribution g ts s.currentGroups s.detected).fault⟩ := by
  obtain ⟨log, h⟩ := Event.runAll_contributes (g := g) (s := s.leave) (eventsFrom g ts s) rfl
  refine ⟨log, ?_⟩
  rw [runAll_events, Event.performed_eq_through _ rfl, h]
  rfl

end Gemfile
