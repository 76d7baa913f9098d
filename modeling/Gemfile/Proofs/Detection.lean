import Gemfile.Proofs.Walk.Behind

/-!
# An interpreter that is looked up when it is first asked for

* `Event.asks`            a `ruby` statement that asks for the interpreter: all of them but those with an
                          engine and no version of it
* `Event.AsksBehind`      a run comes to an event that asks, behind some that do not
* `Setting.asking i p g`  the setting `g` with the interpreter `i` given, or the probe `p` to find one
* `Event.run_asking`      what does not ask is the same with any interpreter and any probe
* `Interpreter.Memory.Fits`   nothing else is remembered than what the probe finds
* `Event.contributions_lazily`   so an interpreter that is found does what it does if it is given
* `runAll_lazily`         and so do whole runs; with a probe that finds none they stop at the first statement
                          that asks, and without such a statement they are all the same
-/

namespace Gemfile

def Setting.asking (interpreter : Option Interpreter) (probe : Probe) (g : Setting) : Setting :=
  { g with interpreter := interpreter, probe := probe }

@[simp] lemma Setting.asking_interpreter (i : Option Interpreter) (p : Probe) (g : Setting) :
    (g.asking i p).interpreter = i := rfl

@[simp] lemma Setting.asking_probe (i : Option Interpreter) (p : Probe) (g : Setting) :
    (g.asking i p).probe = p := rfl

namespace Event

def asks : Event → Bool
  | .ruby _ options => !options.engineAlone
  | _ => false

/-- the run of `es` comes to an event that asks, the first one, behind `before` and in the state `u` -/
structure AsksBehind (g : Setting) (es : List Event) (s : State) (before : List Event) (u : State) :
    Prop where
  asks : ∃ e rest, es = before ++ e :: rest ∧ e.asks = true
  first : ∀ e ∈ before, e.asks = false
  reached : runAll g before s = .done u

/-- behind the events before the first one that asks stands that one, or nothing -/
lemma split_at_asks (es : List Event) :
    ∃ before, (∀ e ∈ before, e.asks = false) ∧
      (es = before ∨ ∃ e rest, es = before ++ e :: rest ∧ e.asks = true) := by
  induction es with
  | nil => exact ⟨[], List.forall_mem_nil _, .inl rfl⟩
  | cons e es ih =>
    cases he : e.asks with
    | true => exact ⟨[], List.forall_mem_nil _, .inr ⟨e, es, rfl, he⟩⟩
    | false =>
      obtain ⟨before, h, ih⟩ := ih
      refine ⟨e :: before, List.forall_mem_cons.mpr ⟨he, h⟩, ?_⟩
      rcases ih with ih | ⟨e', rest, ih, he'⟩
      · exact .inl (congrArg (e :: ·) ih)
      · exact .inr ⟨e', rest, congrArg (e :: ·) ih, he'⟩

/-! ## events that do not ask -/

section
variable {g : Setting} {es : List Event} (i : Option Interpreter) (p : Probe)

/-- an event that does not ask does not see the interpreter, nor the probe that would find one -/
theorem run_asking {e : Event} (he : e.asks = false) : e.run (g.asking i p) = e.run g := by
  funext s
  cases e with
  | ruby version options =>
    have h : options.engineAlone = true := by
      rw [asks, Bool.not_eq_false'] at he
      exact he
    show s.checkRuby (g.asking i p) version options = s.checkRuby g version options
    rw [State.checkRuby_of_engineAlone h, State.checkRuby_of_engineAlone h]
  | _ => rfl

lemma runAll_asking (h : ∀ e ∈ es, e.asks = false) (s : State) :
    runAll (g.asking i p) es s = runAll g es s := by
  induction es generalizing s with
  | nil => rfl
  | cons e es ih =>
    obtain ⟨he, h⟩ := List.forall_mem_cons.mp h
    rw [runAll, runAll, run_asking i p he, funext (ih h)]

lemma performed_asking (h : ∀ e ∈ es, e.asks = false) (s : State) :
    performed (g.asking i p) es s = performed g es s := by
  induction es generalizing s with
  | nil => rfl
  | cons e es ih =>
    obtain ⟨he, h⟩ := List.forall_mem_cons.mp h
    rw [performed, performed, run_asking i p he]
    simp only [ih h]

/-- a run that comes to no event that asks goes through the same events with any interpreter -/
theorem runAll_of_not_asked {s : State} (h : ∀ before u, ¬ AsksBehind g es s before u) :
    runAll (g.asking i p) es s = runAll g es s ∧
      performed (g.asking i p) es s = performed g es s := by
  obtain ⟨before, hb, rfl | ⟨e, rest, rfl, he⟩⟩ := split_at_asks es
  · exact ⟨runAll_asking i p hb s, performed_asking i p hb s⟩
  · rcases hr : runAll g before s with ⟨t, f⟩
    cases f with
    | none => exact absurd ⟨⟨e, rest, rfl, he⟩, hb, hr⟩ (h before t)
    | some f =>
      -- it fails before the first event that asks
      have hf : runAll g before s = .failed t f := hr
      have hf' : runAll (g.asking i p) before s = .failed t f := (runAll_asking i p hb s).trans hf
      rw [runAll_append, runAll_append, hf, hf', Outcome.failed_andThen, Outcome.failed_andThen,
        performed_append_of_failed hf, performed_append_of_failed hf', performed_asking i p hb s]
      exact ⟨rfl, rfl⟩

end

/-! ## a probe that finds no interpreter -/

section
variable {g : Setting} {es : List Event} {s : State}

/-- an event that does not ask leaves what is remembered as it is -/
lemma contribution_detected {e : Event} (he : e.asks = false) (m : Interpreter.Memory) :
    (e.contribution g m).detected = m := by
  cases e with
  | gem c => exact congrArg Contribution.detected (c.contribution_memory g.without m m)
  | ruby version options =>
    have h : options.engineAlone = true := by
      rw [asks, Bool.not_eq_false'] at he
      exact he
    show (g.checked version options m).detected = m
    unfold Setting.checked
    simp only [if_pos h]
  | _ => rfl

lemma contributions_detected (h : ∀ e ∈ es, e.asks = false) (m : Interpreter.Memory) :
    (contributions g es m).detected = m := by
  induction es with
  | nil => rfl
  | cons e es ih =>
    obtain ⟨he, h⟩ := List.forall_mem_cons.mp h
    have h1 := contribution_detected (g := g) he m
    rw [contributions]
    unfold Contribution.andThen
    cases (e.contribution g m).fault with
    | some f => exact h1
    | none =>
      show (contributions g es (e.contribution g m).detected).detected = m
      rw [h1, ih h]

lemma runAll_detected (h : ∀ e ∈ es, e.asks = false) (hs : s.currentGroups = none) :
    (runAll g es s).state.detected = s.detected := by
  obtain ⟨log, h1⟩ := runAll_contributes (g := g) es hs
  rw [h1]
  exact contributions_detected h s.detected

/-- an event that asks fails if nothing is remembered and the probe finds nothing -/
lemma run_asks {e : Event} (he : e.asks = true) {p : Probe} {f : InterpreterFault}
    (hp : p.interpreter nativePlatform = .error f) (hs : s.detected.lookup nativePlatform = none) :
    e.run (g.asking none p) s = .failed s (.interpreter f) := by
  cases e with
  | ruby version options =>
    have h : ¬ options.engineAlone = true := by
      rw [asks, Bool.not_eq_true'] at he
      rw [he]
      exact Bool.false_ne_true
    have hi : s.interpreter (g.asking none p) = .error (.interpreter f) := by
      unfold State.interpreter Interpreter.Memory.detect
      simp only [Setting.asking_interpreter, Setting.asking_probe, hs, hp]
      rfl
    show s.checkRuby (g.asking none p) version options = _
    exact State.checkRuby_of_error h version hi
  | _ => cases he

/-- so the run stops at the first event that asks -/
theorem runAll_of_asked {i : Option Interpreter} {q p : Probe} {before : List Event} {u : State}
    {f : InterpreterFault} (h : AsksBehind (g.asking i q) es s before u)
    (hs : s.currentGroups = none) (hm : s.detected.lookup nativePlatform = none)
    (hp : p.interpreter nativePlatform = .error f) :
    runAll (g.asking none p) es s = .failed u (.interpreter f) ∧
      performed (g.asking none p) es s = before := by
  obtain ⟨⟨e, rest, rfl, he⟩, hb, hr⟩ := h
  have hr' : runAll (g.asking none p) before s = .done u :=
    (runAll_asking none p (g := g.asking i q) hb s).trans hr
  have hu : u.detected = s.detected := by
    have h1 := runAll_detected (g := g.asking none p) hb hs
    rw [hr'] at h1
    exact h1
  have hf := run_asks (g := g) he hp (hu ▸ hm)
  rw [runAll_append, hr', Outcome.done_andThen, runAll_of_failed hf,
    performed_append_of_done hr', performed_of_failed hf, List.append_nil]
  exact ⟨rfl, rfl⟩

end

end Event

/-! ## a probe that finds an interpreter -/

/-- nothing but `i` is remembered as the native interpreter -/
def Interpreter.Memory.Fits (m : Interpreter.Memory) (i : Interpreter) : Prop :=
  ∀ j, m.lookup nativePlatform = some j → j = i

section
variable {g : Setting} {p : Probe} {i : Interpreter} {m : Interpreter.Memory}

lemma Setting.asked_lazily (hp : p.interpreter nativePlatform = .ok i) (hm : m.Fits i) :
    ∃ m', m'.Fits i ∧ (g.asking none p).asked m = .ok (i, m') := by
  unfold asked Interpreter.Memory.detect
  simp only [asking_interpreter, asking_probe]
  cases hl : m.lookup nativePlatform with
  | some j =>
    obtain rfl := hm j hl
    exact ⟨m, hm, rfl⟩
  | none =>
    rw [hp]
    refine ⟨(nativePlatform, i) :: m, fun j hj => ?_, rfl⟩
    rw [List.lookup_cons_self] at hj
    exact (Option.some.inj hj).symm

lemma Setting.checked_lazily (hp : p.interpreter nativePlatform = .ok i) (hm : m.Fits i)
    (version : Value) (options : Options) :
    ∃ m', m'.Fits i ∧ ∀ q n, (g.asking none p).checked version options m =
      { (g.asking (some i) q).checked version options n with detected := m' } := by
  unfold checked
  by_cases he : options.engineAlone = true
  · simp only [if_pos he]
    exact ⟨m, hm, fun _ _ => rfl⟩
  · obtain ⟨m', hm', h⟩ := asked_lazily (g := g) hp hm
    simp only [if_neg he, h]
    exact ⟨m', hm', fun _ _ => rfl⟩

namespace Event

lemma contribution_lazily (hp : p.interpreter nativePlatform = .ok i) (hm : m.Fits i) (e : Event) :
    ∃ m', m'.Fits i ∧ ∀ q n, e.contribution (g.asking none p) m =
      { e.contribution (g.asking (some i) q) n with detected := m' } := by
  cases e with
  | gem c =>
    refine ⟨m, hm, fun q n => ?_⟩
    show (c.contribution g.without m).located c.place = _
    rw [c.contribution_memory g.without n m]
    rfl
  | ruby version options => exact Setting.checked_lazily hp hm version options
  | _ => exact ⟨m, hm, fun _ _ => rfl⟩

/-- events contribute the same with an interpreter that is found as with one that is given, and the
same of them go through -/
theorem contributions_lazily (hp : p.interpreter nativePlatform = .ok i) (hm : m.Fits i) (q : Probe)
    (es : List Event) (n : Interpreter.Memory) :
    (∃ m', contributions (g.asking none p) es m =
        { contributions (g.asking (some i) q) es n with detected := m' }) ∧
      through (g.asking none p) es m = through (g.asking (some i) q) es n := by
  induction es generalizing m n with
  | nil => exact ⟨⟨m, rfl⟩, rfl⟩
  | cons e es ih =>
    obtain ⟨m', hm', h⟩ := contribution_lazily (g := g) hp hm e
    have h1 := h q n
    rw [contributions, contributions, through, through, h1]
    unfold Contribution.andThen
    cases hf : (e.contribution (g.asking (some i) q) n).fault with
    | some f => exact ⟨⟨m', by simp only [hf]⟩, rfl⟩
    | none =>
      obtain ⟨⟨m'', h2⟩, h3⟩ := ih hm' (e.contribution (g.asking (some i) q) n).detected
      refine ⟨⟨m'', ?_⟩, congrArg (e :: ·) h3⟩
      dsimp only
      rw [h2]
      rfl

end Event

end

/-- If the probe finds an interpreter, a run is the one with that interpreter given, but for the log and
for what is remembered.  If it finds none, the run stops at the first statement that asks, where the run
with any interpreter given comes to.  If no statement is reached that asks, all runs are the same. -/
theorem runAll_lazily (g : Setting) (p : Probe) (ts : List Statement) {s : State}
    (hs : s.detected.lookup nativePlatform = none) :
    (∀ i q, p.interpreter nativePlatform = .ok i →
      ∃ detected log, Statement.runAll (g.asking none p) ts s =
        (Statement.runAll (g.asking (some i) q) ts s).mapState fun t =>
          { t with detected := detected, log := log }) ∧
    (∀ f i q before u, p.interpreter nativePlatform = .error f →
      Event.AsksBehind (g.asking (some i) q) (Statement.eventsFrom g ts s) s.leave before u →
      Statement.runAll (g.asking none p) ts s =
        .failed { u with currentGroups := Event.behind before s.currentGroups } (.interpreter f)) ∧
    ∀ i q, (∀ before u, ¬ Event.AsksBehind (g.asking i q) (Statement.eventsFrom g ts s) s.leave before u) →
      ∀ i' q', Statement.runAll (g.asking i' q') ts s = Statement.runAll (g.asking i q) ts s := by
  have events : ∀ i q, Statement.eventsFrom (g.asking i q) ts s = Statement.eventsFrom g ts s :=
    fun _ _ => rfl
  refine ⟨?_, ?_, ?_⟩
  · intro i q hp
    have hm : s.detected.Fits i := by
      intro j hj
      rw [hs] at hj
      cases hj
    obtain ⟨log, h⟩ := Statement.runAll_through (g.asking none p) ts s
    obtain ⟨log', h'⟩ := Statement.runAll_through (g.asking (some i) q) ts s
    obtain ⟨⟨m', h1⟩, h2⟩ :=
      Event.contributions_lazily (g := g) hp hm q (Statement.eventsFrom g ts s) s.detected
    have h3 : Statement.contribution (g.asking none p) ts s.currentGroups s.detected =
        { Statement.contribution (g.asking (some i) q) ts s.currentGroups s.detected with
          detected := m' } := h1
    refine ⟨m', log, ?_⟩
    rw [h, h', h3, events, events, h2]
    rfl
  · intro f i q before u hp h
    obtain ⟨h1, h2⟩ := Event.runAll_of_asked h rfl hs hp
    rw [Statement.runAll_events, events, h1, h2]
    rfl
  · intro i q h i' q'
    obtain ⟨h1, h2⟩ := Event.runAll_of_not_asked i' q' h
    rw [Statement.runAll_events, Statement.runAll_events, events, events]
    rw [show (g.asking i q).asking i' q' = g.asking i' q' from rfl] at h1 h2
    rw [h1, h2]

/-- a gem is requested before the interpreter is asked for: with a probe that finds none the run stops
there, with one that finds some it ends as with that one given -/
theorem runAll_lazily_between :
    let found : Probe := ⟨some "/usr/bin/ruby", .output "3.0.0 ruby 3.0.0\n"⟩
    let g : Setting := ⟨⟨0, ["gem.deps.rb"]⟩, [], none, .absent⟩
    let ts : List Statement := [⟨"gem", [.str "a"], [], none, 1⟩, ⟨"ruby", [.str "3.0.0"], [], none, 2⟩,
      ⟨"gem", [.str "b"], [], none, 3⟩]
    let o := Statement.runAll (g.asking none .absent) ts (.start .standard)
    (o.fault = some (.interpreter (.notFound "ruby")) ∧ o.state.requests = [⟨.str "a", []⟩]) ∧
      ∃ detected log, Statement.runAll (g.asking none found) ts (.start .standard) =
        (Statement.runAll (g.asking (some ⟨"3.0.0", "ruby", some "3.0.0"⟩) .absent) ts
          (.start .standard)).mapState fun t => { t with detected := detected, log := log } := by
  intro found g ts o
  obtain ⟨h, _, _⟩ := runAll_lazily g found ts (s := .start .standard) rfl
  obtain ⟨_, h', _⟩ := runAll_lazily g .absent ts (s := .start .standard) rfl
  refine ⟨?_, h ⟨"3.0.0", "ruby", some "3.0.0"⟩ .absent rfl⟩
  have hb : ∃ u, Event.AsksBehind (g.asking (some (.native "3.0.0")) .absent)
      (Statement.eventsFrom g ts (.start .standard)) (State.start .standard).leave
      [.gem ⟨.str "a", [], [], none, ⟨"gem.deps.rb", 1⟩⟩] u ∧ u.requests = [⟨.str "a", []⟩] :=
    ⟨_, ⟨⟨_, _, rfl, rfl⟩, by simp [Event.asks], rfl⟩, rfl⟩
  obtain ⟨u, hu, hr⟩ := hb
  have ho : o = _ := h' _ _ _ _ _ rfl hu
  rw [ho]
  exact ⟨rfl, hr⟩

end Gemfile
