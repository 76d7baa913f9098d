import Gemfile.Proofs.Declare
import Gemfile.Proofs.Interpreter

/-!
# A run has the effect of its walk

* `Performs g run e`     `run` is the run of one event
* `Follows g run walk`   `run` has the effect of the events of `walk`, and leaves at hand the groups
                         that `walk` carries on; if it fails, those that were at hand or none
* `Runs.Closed`          properties of runs and walks that hold of every run of statements and its walk
* `runAll_follows`       every run of statements follows their walk
* `Statement.runAll_eq`  so from outside every group block it is the run of their events
-/

namespace Gemfile

/-- the beginning of a group block -/
def Event.enters : Event → Bool
  | .enter _ => true
  | _ => false

/-- `run` is the run of one event, and leaves the groups at hand as they are -/
structure Performs (g : Setting) (run : State → Outcome) (e : Option (List Value) → Event) :
    Prop where
  effect : ∀ s, (run s).mapState State.leave = (e s.currentGroups).run g s.leave
  groups : ∀ s, (run s).state.currentGroups = s.currentGroups
  single : ∀ carried, (e carried).enters = false

structure Follows (g : Setting) (run : State → Outcome) (walk : Option (List Value) → Walk) :
    Prop where
  effect : ∀ s, (run s).mapState State.leave = Event.runAll g (walk s.currentGroups).events s.leave
  carried : ∀ s, (run s).fault = none →
    (run s).state.currentGroups = (walk s.currentGroups).carried
  restored : ∀ s, (run s).state.currentGroups = s.currentGroups ∨
    (run s).state.currentGroups = none

namespace Follows
variable {g : Setting} {run next : State → Outcome} {walk walk' : Option (List Value) → Walk}

lemma stay (g : Setting) : Follows g .done .stay :=
  ⟨fun _ => rfl, fun _ _ => rfl, fun _ => .inl rfl⟩

lemma one {e : Option (List Value) → Event} (h : Performs g run e) :
    Follows g run fun carried => .one (e carried) carried := by
  refine ⟨fun s => ?_, fun s _ => h.groups s, fun s => .inl (h.groups s)⟩
  rw [h.effect s]
  exact (Outcome.andThen_done _).symm

lemma andThen (h : Follows g run walk) (h' : Follows g next walk') :
    Follows g (fun s => (run s).andThen next) fun carried => (walk carried).andThen walk' := by
  have effect : ∀ s, Event.runAll g ((walk s.currentGroups).andThen walk').events s.leave =
      ((run s).mapState State.leave).andThen
        (Event.runAll g (walk' (walk s.currentGroups).carried).events) := by
    intro s
    rw [h.effect s]
    exact Event.runAll_append g _ _ _
  constructor
  · intro s
    rw [effect s]
    have hc := h.carried s
    rcases hr : run s with ⟨t, f⟩
    rw [hr] at hc
    cases f with
    | some f => rfl
    | none =>
      show (next t).mapState State.leave = Event.runAll g _ t.leave
      rw [h'.effect t, hc rfl]
  · intro s
    have hc := h.carried s
    show ((run s).andThen next).fault = none → ((run s).andThen next).state.currentGroups =
      (walk' (walk s.currentGroups).carried).carried
    rcases hr : run s with ⟨t, f⟩
    rw [hr] at hc
    cases f with
    | some f =>
      intro hf
      cases hf
    | none =>
      intro hf
      rw [← hc rfl]
      exact h'.carried t hf
  · intro s
    have h1 := h.restored s
    show ((run s).andThen next).state.currentGroups = s.currentGroups ∨
      ((run s).andThen next).state.currentGroups = none
    rcases hr : run s with ⟨t, f⟩
    rw [hr] at h1
    cases f with
    | some f => exact h1
    | none =>
      have h2 := h'.restored t
      rcases h1 with h1 | h1
      · rw [← h1]
        exact h2
      · rw [show t.currentGroups = none from h1, or_self_iff] at h2
        exact .inr h2

lemma inGroups (h : Follows g run walk) (names : List Value) :
    Follows g (State.inGroups names run) (.group names walk) := by
  refine ⟨fun s => ?_, fun _ _ => rfl, fun _ => .inr rfl⟩
  show _ = Event.runAll g (.enter names :: (walk (some names)).events ++ [.leave]) s.leave
  rw [Event.runAll_group]
  exact h.effect { s with currentGroups := some names }

end Follows

/-- a property of runs and their walks that holds of the run of an event, and of runs put together -/
structure Runs.Closed (g : Setting)
    (P : (State → Outcome) → (Option (List Value) → Walk) → Prop) : Prop where
  stay : P .done .stay
  one : ∀ run e, Performs g run e → P run fun carried => .one (e carried) carried
  andThen : ∀ {run next walk walk'}, P run walk → P next walk' →
    P (fun s => (run s).andThen next) fun carried => (walk carried).andThen walk'
  inGroups : ∀ {run walk} names, P run walk → P (State.inGroups names run) (.group names walk)

namespace Runs.Closed
variable {g : Setting} {P : (State → Outcome) → (Option (List Value) → Walk) → Prop}
  {run : State → Outcome} {walk : Option (List Value) → Walk}

lemma onPlatform (hP : Runs.Closed g P) (h : P run walk) (what : Value) :
    P (State.onPlatform what run) fun carried =>
      if what = .str nativePlatform then walk carried
      else .one (.remark (skippedPlatform what)) carried := by
  by_cases hw : what = .str nativePlatform
  · have h1 : State.onPlatform what run = run := by
      funext s
      exact if_pos hw
    simp only [h1, if_pos hw]
    exact h
  · have h1 : State.onPlatform what run = fun s => .done (s.write [skippedPlatform what]) := by
      funext s
      exact if_neg hw
    simp only [h1, if_neg hw]
    exact hP.one _ (fun _ => .remark (skippedPlatform what))
      ⟨fun _ => rfl, fun _ => rfl, fun _ => rfl⟩

lemma perform (hP : Runs.Closed g P) (h : P run walk) (place : Place) (action : Action) :
    P (action.perform g place run) (action.walk place walk) := by
  cases action with
  | gem name requirements options =>
    refine hP.one _ (fun carried => .gem ⟨name, requirements, options, carried, place⟩)
      ⟨fun s => rfl, fun s => ?_, fun _ => rfl⟩
    obtain ⟨log, h⟩ := State.declare_contributes g (s := s)
      (c := ⟨name, requirements, options, s.currentGroups, place⟩) rfl
    show (s.declare g name requirements options).state.currentGroups = _
    rw [h]
    rfl
  | group names => exact hP.inGroups names h
  | platform what => exact hP.onPlatform h what
  | ruby version options =>
    refine hP.one _ (fun _ => .ruby version options) ⟨fun s => ?_, fun s => ?_, fun _ => rfl⟩
    · obtain ⟨entries, h⟩ := State.checkRuby_eq g version options s.detected
      show (s.checkRuby g version options).mapState State.leave =
        s.leave.checkRuby g version options
      rw [h s rfl, h s.leave rfl]
      rfl
    · obtain ⟨entries, h⟩ := State.checkRuby_eq g version options s.detected
      show (s.checkRuby g version options).state.currentGroups = _
      rw [h s rfl]
      rfl
  | source url =>
    exact hP.one _ (fun _ => .source url) ⟨fun _ => rfl, fun _ => rfl, fun _ => rfl⟩

lemma ignoring (hP : Runs.Closed g P) (h : P run walk) (kind : Statement.Kind) (place : Place)
    (ignored : Bool) :
    P (fun s => run (if ignored = true then s.write [ignoredBlock kind place] else s))
      (fun carried => (if ignored = true then Walk.one (.remark (ignoredBlock kind place)) carried
        else Walk.stay carried).andThen walk) := by
  cases ignored with
  | true =>
    have first : P (fun s => .done (s.write [ignoredBlock kind place]))
        (.one (.remark (ignoredBlock kind place))) :=
      hP.one _ (fun _ => .remark (ignoredBlock kind place))
        ⟨fun _ => rfl, fun _ => rfl, fun _ => rfl⟩
    exact hP.andThen first h
  | false => exact hP.andThen hP.stay h

lemma kind (hP : Runs.Closed g P) (kind : Statement.Kind) (place : Place) (args : List Value)
    (options : Options) {block : Option (State → Outcome)}
    {walked : Option (Option (List Value) → Walk)}
    (h : P (block.getD .done) (walked.getD .stay)) (hb : block.isSome = walked.isSome) :
    P (kind.run g place args options block) (kind.walk place args options walked) := by
  unfold Statement.Kind.run Statement.Kind.walk
  rw [hb]
  cases Action.of kind args options walked.isSome with
  | error m =>
    have misused : P (fun s => .failed s (.misuse m place)) (.one (.fault (.misuse m place))) :=
      hP.one _ (fun _ => .fault (.misuse m place)) ⟨fun _ => rfl, fun _ => rfl, fun _ => rfl⟩
    exact hP.ignoring misused kind place _
  | ok action => exact hP.ignoring (hP.perform h place action) kind place _

end Runs.Closed

lemma Statement.run_eq (g : Setting) (t : Statement) :
    Statement.run g t =
      match Statement.Kind.ofName? t.name with
      | none => fun s => .failed s (.undefinedStatement t.name ⟨g.file, t.line⟩)
      | some kind => kind.run g ⟨g.file, t.line⟩ t.args t.options (t.body.map (Statement.runAll g)) := by
  obtain ⟨name, args, options, body, line⟩ := t
  funext s
  rw [Statement.run]
  cases Statement.Kind.ofName? name with
  | none => rfl
  | some kind => cases body <;> rfl

/-- such a property holds of every run of statements and its walk -/
theorem Runs.Closed.runAll {g : Setting}
    {P : (State → Outcome) → (Option (List Value) → Walk) → Prop} (hP : Runs.Closed g P)
    (ts : List Statement) : P (Statement.runAll g ts) (Statement.walkAll g.file ts) := by
  refine Statement.induct (P := fun ts => P (Statement.runAll g ts)
    (Statement.walkAll g.file ts)) ?_ ?_ ts
  · rw [funext (Statement.runAll_nil g), Statement.walkAll_nil]
    exact hP.stay
  · intro t ts hb h
    have ht : P (Statement.run g t) (Statement.walk g.file t) := by
      rw [Statement.run_eq, Statement.walk_eq]
      cases Statement.Kind.ofName? t.name with
      | none =>
        exact hP.one _ (fun _ => .fault (.undefinedStatement t.name ⟨g.file, t.line⟩))
          ⟨fun _ => rfl, fun _ => rfl, fun _ => rfl⟩
      | some kind =>
        refine hP.kind kind ⟨g.file, t.line⟩ t.args t.options ?_ (by simp)
        cases hbody : t.body with
        | none => exact hP.stay
        | some b => exact hb b hbody
    rw [funext (Statement.runAll_cons g t ts), Statement.walkAll_cons]
    exact hP.andThen ht h

/-- a run of statements has the effect of their walk -/
theorem runAll_follows (g : Setting) (ts : List Statement) :
    Follows g (Statement.runAll g ts) (Statement.walkAll g.file ts) := by
  have closed : Runs.Closed g (Follows g) := by
    constructor
    · exact .stay g
    · exact fun _ _ => .one
    · exact .andThen
    · exact fun names h => h.inGroups names
  exact closed.runAll ts

lemma State.leave_eq {s : State} (hs : s.currentGroups = none) : s.leave = s := by
  unfold State.leave
  rw [← hs]

lemma Statement.runAll_currentGroups (g : Setting) (ts : List Statement) {s : State}
    (hs : s.currentGroups = none) : (runAll g ts s).state.currentGroups = none := by
  have h := (runAll_follows g ts).restored s
  rw [hs] at h
  exact or_self_iff.mp h

/-- from outside every group block a run is that of its events -/
theorem Statement.runAll_eq (g : Setting) (ts : List Statement) {s : State}
    (hs : s.currentGroups = none) :
    runAll g ts s = Event.runAll g (walkAll g.file ts none).events s := by
  have h := (runAll_follows g ts).effect s
  rw [State.leave_eq hs, hs] at h
  rw [← h, Outcome.mapState, State.leave_eq (runAll_currentGroups g ts hs)]

end Gemfile
