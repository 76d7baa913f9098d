import Gemfile.Proofs.Walk.Gems
import Gemfile.Proofs.Walk.Performed

/-!
# Runs that fail

* `Stopped g e f u t`   what the event `e` may have changed in the state `u` when it fails with `f`
* `Event.run_stopped`   every event of a walk that fails has changed no more
* `runAll_stopped`      so a run that fails has the effect of the events before the failure, and of
                        nothing behind it
-/

namespace Gemfile

/-! ## what a failure may change -/

/-- what the event `e` has changed at most, in the state `u`, when it fails with `f` and leaves `t` -/
structure Stopped (g : Setting) (e : Event) (f : Fault) (u t : State) : Prop where
  requests : t.requests = u.requests
  sources : t.sources = u.sources
  defaultSources : t.defaultSources = u.defaultSources
  /-- a fault with a message that is not about a requirement leaves the other stores alone too -/
  unchanged : f.message?.isSome → (∀ r place, f ≠ .requirement r place) →
    t.groups = u.groups ∧ t.vendored = u.vendored
  /-- a fault about a requirement is that of a gem without excluded groups, which is registered and
  recorded before it -/
  requirement : ∀ r place, f = .requirement r place → ∃ c, e = .gem c ∧ place = some c.place ∧
    c.dependency = .error r ∧ c.requested g.without = true ∧ c.Proper ∧ Recorded g [c] u t ∧
    t.vendored.directories = u.vendored.directories.putAll c.registration?.toList

namespace Stopped
variable {g : Setting} {f : Fault} {u t : State}

/-- a fault for which nothing is told, whatever it has left behind in the groups -/
lemma of_value {e : Event} {k : Contribution} (hq : k.requests = []) (hu : k.urls = [])
    (v : ValueFault) (log : List Log.Entry) :
    Stopped g e (.value v) u { k.applied u with log := log } where
  requests := by
    show u.requests ++ k.requests = _
    rw [hq, List.append_nil]
  sources := by
    show Contribution.named u.defaultSources u.sources k.urls = _
    rw [hu]
    rfl
  defaultSources := by
    show (k.urls.isEmpty && u.defaultSources) = _
    rw [hu]
    rfl
  unchanged := fun hm => nomatch hm
  requirement := nofun

/-- nothing changed but what is remembered -/
lemma of_log {e : Event} {m : Interpreter.Memory} {log : List Log.Entry}
    (hf : ∀ r place, f ≠ .requirement r place) :
    Stopped g e f u { u with detected := m, log := log } :=
  ⟨rfl, rfl, rfl, fun _ _ => ⟨rfl, rfl⟩, fun r place h => absurd h (hf r place)⟩

lemma gem {c : GemCall} (hu : u.currentGroups = none)
    (h : (Event.gem c).run g u = .failed t f) : Stopped g (.gem c) f u t := by
  obtain ⟨log, h1⟩ := (Event.gem c).run_contributes (g := g) hu
  rw [h1] at h
  obtain ⟨rfl, hf⟩ := Outcome.mk.inj h
  clear h h1
  rcases c.contribution_cases with ⟨es, v, hk⟩ | ⟨hp, hk⟩
  · simp only [Event.contribution, Contribution.located, hk] at hf ⊢
    cases hf
    exact of_value rfl rfl v log
  · cases hr : c.routed g.without c.groups with
    | ok ds =>
      simp only [Event.contribution, Contribution.located, hk, hr] at hf
      cases hf
    | error f' =>
      simp only [Event.contribution, Contribution.located, hk, hr] at hf ⊢
      cases hf
      rcases GemCall.routed_error hr with ⟨hq, r, hd, rfl⟩ | ⟨_, v, rfl⟩
      · have hg : c.filed.foldl (fun t e => addTo e.1 e.2 t) u.groups =
            c.groups.foldl (fun t n => addTo n c.declaration t) u.groups := List.foldl_map
        have hn : u.requests ++ [] = u.requests := List.append_nil _
        refine ⟨hn, rfl, rfl, fun _ hne => absurd rfl (hne r (some c.place)), ?_⟩
        intro r' place h
        cases h
        refine ⟨c, rfl, rfl, hd, hq, hp, .one hg ?_, rfl⟩
        rw [hd]
        simp [hq, Except.toOption, Contribution.applied]
      · exact of_value rfl rfl v log

end Stopped

/-- an event of a walk that fails has changed no more than its fault tells -/
theorem Event.run_stopped {g : Setting} {e : Event} {f : Fault} {u t : State}
    (he : ∀ f, e = .fault f → f.ofStatement = true) (hu : u.currentGroups = none)
    (h : e.run g u = .failed t f) : Stopped g e f u t := by
  cases e with
  | gem c => exact .gem hu h
  | ruby version options =>
    obtain ⟨entries, h1⟩ := State.checkRuby_eq g version options u.detected
    obtain ⟨m, f', h2, hf⟩ := g.checked_eq version options u.detected
    rw [h2] at h1
    cases (h1 u rfl).symm.trans h
    refine .of_log fun r place hr => ?_
    rw [hr] at hf
    exact nomatch hf _ rfl
  | source url => cases h
  | remark entry => cases h
  | fault f' =>
    cases h
    refine .of_log fun r place hr => ?_
    rw [hr] at he
    exact nomatch he _ rfl
  | enter names => cases h
  | leave => cases h

/-- events that begin with some that go through and one that fails end with that one -/
lemma Event.runAll_of_prefix {g : Setting} {p : List Event} {e : Event} {s u : State}
    {t : State} {f : Fault} (hp : runAll g p s = .done u) (he : e.run g u = .failed t f)
    {es : List Event} (h : p ++ [e] <+: es) : runAll g es s = .failed t f := by
  obtain ⟨rest, rfl⟩ := h
  rw [List.append_assoc, runAll_append, hp]
  exact runAll_of_failed he rest

lemma State.load_of_error (g : Setting) (s : State) {text : String} {f : SyntaxFault}
    (h : Statement.parse text.toList = .error f) :
    ∃ log, s.load g (.ok text) = .failed { s with log := log } (.spelling g.path.text f) := by
  show ∃ log, State.execute g text.toList _ = _
  unfold State.execute
  rw [h]
  exact ⟨_, rfl⟩

/-- A run from outside every group block ends outside of them.  If it fails, the events before the
failure have gone through, the one that failed has changed what its fault tells and no more, and
what stands behind it has no effect: any other statements with the same events up to there end in
the same way.  A file that cannot be read as statements changes nothing at all. -/
theorem runAll_stopped (g : Setting) (ts : List Statement) {s : State}
    (hs : s.currentGroups = none) :
    (Statement.runAll g ts s).state.currentGroups = none ∧
      (∀ f, (Statement.runAll g ts s).fault = some f →
        ∃ p e rest u, (Statement.walkAll g.file ts none).events = p ++ e :: rest ∧
          Event.runAll g p s = .done u ∧ Gathered g (p.filterMap Event.call?) s u ∧
          u.sources = Contribution.named s.defaultSources s.sources (p.filterMap Event.url?) ∧
          e.run g u = .failed (Statement.runAll g ts s).state f ∧
          Stopped g e f u (Statement.runAll g ts s).state ∧
          ∀ ts', p ++ [e] <+: (Statement.walkAll g.file ts' none).events →
            Statement.runAll g ts' s = Statement.runAll g ts s) ∧
      ∀ text f, Statement.parse text.toList = .error f →
        ∃ log, s.load g (.ok text) = .failed { s with log := log } (.spelling g.path.text f) := by
  refine ⟨Statement.runAll_currentGroups g ts hs, ?_, fun text f => s.load_of_error g⟩
  intro f hf
  have hr := Statement.runAll_eq g ts hs
  obtain ⟨u, hu, ⟨_, h1⟩ | ⟨e, rest, f', hes, hf', h1⟩⟩ :=
    Event.runAll_performed g (Statement.walkAll g.file ts none).events s
  · rw [hr, h1] at hf
    cases hf
  · rw [← hr] at hf' h1
    obtain rfl : f = f' := Option.some.inj (hf.symm.trans hf')
    -- the whole run ends as its failing event does in the state behind the events before it
    have he : e.run g u = .failed (Statement.runAll g ts s).state f := by
      rw [← h1, Outcome.failed, ← hf]
    have hn : (Outcome.done u).state.currentGroups = none := by
      rw [← hu]
      exact Event.runAll_currentGroups _ hs
    refine ⟨_, e, rest, u, hes, hu, Event.runAll_done hu, Event.sources_of_runAll hs hu, he, ?_, ?_⟩
    · refine Event.run_stopped (fun f hf => ?_) hn he
      refine Statement.fault_walkAll g.file ts none ?_
      rw [hes, ← hf]
      exact List.mem_append_right _ List.mem_cons_self
    · intro ts' h
      rw [Statement.runAll_eq g ts' hs, Event.runAll_of_prefix hu he h, Outcome.failed, ← hf]

/-- a vendored gem in a group whose requirement is none: it is registered and recorded and not
requested, and the gem behind it is not reached -/
theorem runAll_stopped_requirement :
    let g : Setting := ⟨⟨0, ["gem.deps.rb"]⟩, [], some (.native "3.0.0"), .absent⟩
    let o := Statement.runAll g
      [⟨"gem", [.str "a"], [], none, 1⟩,
        ⟨"group", [.str "test"], [],
          some [⟨"gem", [.str "b", .str "?"], [("path", .str "b")], none, 3⟩], 2⟩,
        ⟨"gem", [.str "c"], [], none, 5⟩] (.start .standard)
    (∃ p e u, Event.runAll g p (.start .standard) = .done u ∧
        Stopped g e (.requirement (.requirement (.str "?")) (some ⟨"gem.deps.rb", 3⟩)) u o.state) ∧
      o.state.requests = [⟨.str "a", []⟩] ∧ Table.keys o.state.groups = [.str "test"] ∧
      Table.keys o.state.vendored.directories = [.str "b"] := by
  obtain ⟨_, h, _⟩ := runAll_stopped ⟨⟨0, ["gem.deps.rb"]⟩, [], some (.native "3.0.0"), .absent⟩
    [⟨"gem", [.str "a"], [], none, 1⟩,
      ⟨"group", [.str "test"], [],
        some [⟨"gem", [.str "b", .str "?"], [("path", .str "b")], none, 3⟩], 2⟩,
      ⟨"gem", [.str "c"], [], none, 5⟩] (s := .start .standard) rfl
  obtain ⟨p, e, _, u, _, hp, _, _, _, hs, _⟩ := h _ rfl
  exact ⟨⟨p, e, u, hp, hs⟩, rfl, rfl, rfl⟩

end Gemfile
