import Gemfile.Proofs.Guards

/-!
# Guards that are passed

* `Statement.Reached ts t`   a run of `ts` comes to `t`, if nothing stops it before
* `Statement.Passes i args options`   one version, which `i` has, and no engine or that of `i`
* `Statement.Guarded i ts`   all `ruby` statements that are reached are passed
* `Event.contribution_guard`   a guard adds nothing, and has a fault unless it is passed
* `Statement.walkAll_passing`   the guards of a walk are passed if and only if those reached are
* `runAll_unguarded`         a run ends well if and only if it does without its guards and all of them that
                             are reached are passed, and then both leave the same behind
-/

namespace Gemfile

namespace Statement

/-- the statements that a run of `t` goes on to: the block of a group with names and no options, or of
a platform statement for the native platform -/
def entered (t : Statement) : List Statement :=
  match Kind.ofName? t.name, t.args, t.options with
  | some .group, _ :: _, [] => t.body.getD []
  | some .platform, [what], [] => if what = .str nativePlatform then t.body.getD [] else []
  | some .platforms, [what], [] => if what = .str nativePlatform then t.body.getD [] else []
  | _, _, _ => []

inductive Reached : List Statement → Statement → Prop where
  | here {ts : List Statement} {t : Statement} : t ∈ ts → Reached ts t
  | inside {ts : List Statement} {t u : Statement} : u ∈ ts → Reached u.entered t → Reached ts t

/-- one argument, the version of `i`; no engine, or that of `i` with some engine version -/
structure Passes (i : Interpreter) (args : List Value) (options : Options) : Prop where
  version : args = [.str i.version]
  engine : options.value? "engine" = none ∨
    options.value? "engine" = some (.str i.engine) ∧ (options.value? "engine_version").isSome

end Statement

/-! ## guards that are passed -/

/-- a guard is passed, and what is none stops nothing as a guard -/
def Event.Passed (i : Interpreter) : Event → Prop
  | .ruby version options => Statement.Passes i [version] options
  | .fault (.misuse .notOneVersion _) => False
  | _ => True

namespace Event
variable {g : Setting} {i : Interpreter}

lemma passed_of_not_guards {e : Event} (h : e.guards = false) : e.Passed i := by
  cases e with
  | ruby version options => cases h
  | fault f =>
    cases f with
    | misuse m place =>
      cases m with
      | notOneVersion => cases h
      | _ => trivial
    | _ => trivial
  | _ => trivial

lemma checked_passes (hi : g.interpreter = some i) (version : Value) (options : Options)
    (m : Interpreter.Memory) : ∃ f, g.checked version options m = { detected := m, fault := f } ∧
      (f = none ↔ Statement.Passes i [version] options) := by
  unfold Setting.checked Setting.asked State.interpreterFault?
  rw [hi]
  by_cases he : options.engineAlone = true
  · simp only [if_pos he]
    refine ⟨_, rfl, iff_of_false (Option.some_ne_none _) ?_⟩
    rintro ⟨-, hnone | ⟨-, hversion⟩⟩
    · rw [Options.engineAlone, hnone] at he
      cases he
    · rw [Options.engineAlone, Option.isNone_eq_false_iff.mpr hversion, Bool.and_false] at he
      cases he
  · simp only [if_neg he]
    refine ⟨_, rfl, ?_⟩
    by_cases hv : version = .str i.version
    · rw [if_neg (not_not_intro hv)]
      cases hengine : options.value? "engine" with
      | none => exact iff_of_true rfl ⟨by rw [hv], .inl hengine⟩
      | some e =>
        have hversion : (options.value? "engine_version").isSome := by
          rw [Options.engineAlone, hengine, Option.isSome_some, Bool.true_and,
            Bool.not_eq_true] at he
          exact Option.isNone_eq_false_iff.mp he
        dsimp only
        by_cases hw : e = .str i.engine
        · rw [if_neg (not_not_intro hw)]
          exact iff_of_true rfl ⟨by rw [hv], .inr ⟨by rw [hengine, hw], hversion⟩⟩
        · rw [if_pos hw]
          refine iff_of_false (Option.some_ne_none _) ?_
          rintro ⟨-, hnone | ⟨hsame, -⟩⟩
          · rw [hengine] at hnone
            cases hnone
          · rw [hengine] at hsame
            exact hw (Option.some.inj hsame)
    · rw [if_pos hv]
      refine iff_of_false (Option.some_ne_none _) ?_
      rintro ⟨hsame, -⟩
      exact hv (List.cons.inj hsame).1

/-- a guard adds nothing, and has a fault unless it is passed -/
lemma contribution_guard (hi : g.interpreter = some i) {e : Event} (he : e.guards = true)
    (m : Interpreter.Memory) :
    ∃ f, e.contribution g m = { detected := m, fault := f } ∧ (f = none ↔ e.Passed i) := by
  cases e with
  | ruby version options => exact checked_passes hi version options m
  | fault f =>
    refine ⟨some f, rfl, iff_of_false (Option.some_ne_none f) ?_⟩
    intro hp
    cases f with
    | misuse mis place =>
      cases mis with
      | notOneVersion => exact hp
      | _ => cases he
    | _ => cases he
  | _ => cases he

lemma passed_of_contributions (hi : g.interpreter = some i) {es : List Event}
    {m : Interpreter.Memory} (h : (contributions g es m).fault = none) : ∀ e ∈ es, e.Passed i := by
  induction es generalizing m with
  | nil => exact fun _ he => absurd he List.not_mem_nil
  | cons e es ih =>
    obtain ⟨h1, h2⟩ := Contribution.andThen_fault h
    refine List.forall_mem_cons.mpr ⟨?_, ih h2⟩
    cases he : e.guards with
    | false => exact passed_of_not_guards he
    | true =>
      obtain ⟨f, hf, hpassed⟩ := contribution_guard hi he m
      rw [hf] at h1
      exact hpassed.mp h1

/-- guards that are passed can be left out -/
lemma contributions_passed (hi : g.interpreter = some i) {es : List Event}
    (h : ∀ e ∈ es, e.Passed i) (m : Interpreter.Memory) :
    contributions g (es.filter fun e => !e.guards) m = contributions g es m := by
  induction es generalizing m with
  | nil => rfl
  | cons e es ih =>
    obtain ⟨h1, h2⟩ := List.forall_mem_cons.mp h
    cases he : e.guards with
    | false =>
      rw [List.filter_cons_of_pos (by rw [he]; rfl), contributions, contributions, funext (ih h2)]
    | true =>
      obtain ⟨f, hf, hpassed⟩ := contribution_guard hi he m
      rw [hpassed.mpr h1] at hf
      rw [List.filter_cons_of_neg (by rw [he]; exact Bool.false_ne_true), contributions, hf,
        Contribution.andThen_of_none rfl, ih h2]
      rfl

lemma contributions_kept (hi : g.interpreter = some i) {es : List Event}
    (h : ∀ e ∈ es, e.Passed i) (m : Interpreter.Memory) :
    contributions g (es.filter kept) m = contributions g es m := by
  have hkept : es.filter kept = (es.filter fun e => !e.guards).filter effective := by
    rw [List.filter_filter]
    rfl
  rw [hkept, contributions_effective, contributions_passed hi h]

end Event

/-! ## guards that are reached -/

/-- the guards of a walk are passed if and only if `p` is the case, whatever is carried to it -/
def Walk.Passing (i : Interpreter) (walk : Option (List Value) → Walk) (p : Prop) : Prop :=
  ∀ carried, (∀ e ∈ (walk carried).events, e.Passed i) ↔ p

/-- the statements that a run goes on to from an action, given those of its block -/
def Action.entered (block : List Statement) : Action → List Statement
  | .group _ => block
  | .platform what => if what = .str nativePlatform then block else []
  | _ => []

namespace Statement

/-- all guards that are reached are passed -/
def Guarded (i : Interpreter) (ts : List Statement) : Prop :=
  ∀ t, Reached ts t → t.name = Kind.ruby.name → Passes i t.args t.options

lemma guarded_nil (i : Interpreter) : Guarded i [] := by
  intro t ht
  cases ht with
  | here hm => exact absurd hm List.not_mem_nil
  | inside hm _ => exact absurd hm List.not_mem_nil

lemma guarded_cons {i : Interpreter} {t : Statement} {ts : List Statement} :
    Guarded i (t :: ts) ↔
      ((t.name = Kind.ruby.name → Passes i t.args t.options) ∧ Guarded i t.entered) ∧
        Guarded i ts := by
  constructor
  · intro h
    refine ⟨⟨h t (.here List.mem_cons_self), ?_⟩, ?_⟩
    · intro u hu
      exact h u (.inside List.mem_cons_self hu)
    · intro u hu
      cases hu with
      | here hm => exact h u (.here (List.mem_cons_of_mem t hm))
      | inside hm hr => exact h u (.inside (List.mem_cons_of_mem t hm) hr)
  · rintro ⟨⟨ht, hentered⟩, hts⟩ u hu
    cases hu with
    | here hm =>
      rcases List.mem_cons.mp hm with rfl | hm
      · exact ht
      · exact hts u (.here hm)
    | inside hm hr =>
      rcases List.mem_cons.mp hm with rfl | hm
      · exact hentered u hr
      · exact hts u (.inside hm hr)

lemma entered_of_ok {t : Statement} {kind : Kind} (hk : Kind.ofName? t.name = some kind) {a : Action}
    (h : Action.of kind t.args t.options t.body.isSome = .ok a) :
    t.entered = a.entered (t.body.getD []) := by
  obtain ⟨name, args, options, body, line⟩ := t
  unfold entered
  dsimp only at hk h ⊢
  rw [hk]
  rcases args with _ | ⟨v, _ | ⟨w, args⟩⟩ <;> cases kind <;> cases options <;> cases body <;>
    cases h <;> rfl

lemma entered_of_error {t : Statement} {kind : Kind} (hk : Kind.ofName? t.name = some kind)
    {m : Misuse} (h : Action.of kind t.args t.options t.body.isSome = .error m) :
    t.entered = [] := by
  obtain ⟨name, args, options, body, line⟩ := t
  unfold entered
  dsimp only at hk h ⊢
  rw [hk]
  rcases args with _ | ⟨v, _ | ⟨w, args⟩⟩ <;> cases kind <;> cases options <;> cases body <;>
    cases h <;> first | rfl | simp

end Statement

namespace Walk.Passing
open Statement
variable {i : Interpreter} {walk next : Option (List Value) → Walk} {p q : Prop}

lemma stay : Walk.Passing i .stay True :=
  fun _ => iff_of_true (fun _ he => absurd he List.not_mem_nil) trivial

lemma one {e : Event} (h : e.Passed i ↔ p) : Walk.Passing i (.one e) p := by
  intro carried
  show (∀ e' ∈ [e], e'.Passed i) ↔ p
  rw [List.forall_mem_singleton]
  exact h

lemma other {e : Event} (he : e.guards = false) (hp : p) : Walk.Passing i (.one e) p :=
  one (iff_of_true (Event.passed_of_not_guards he) hp)

lemma andThen (h : Walk.Passing i walk p) (h' : Walk.Passing i next q) :
    Walk.Passing i (fun carried => (walk carried).andThen next) (p ∧ q) := by
  intro carried
  show (∀ e ∈ (walk carried).events ++ (next (walk carried).carried).events, e.Passed i) ↔ _
  rw [List.forall_mem_append, h carried, h' _]

lemma group (names : List Value) (h : Walk.Passing i walk p) :
    Walk.Passing i (.group names walk) p := by
  intro carried
  show (∀ e ∈ .enter names :: (walk (some names)).events ++ [.leave], e.Passed i) ↔ p
  rw [List.forall_mem_append, List.forall_mem_cons, List.forall_mem_singleton, h (some names)]
  exact ⟨fun h => h.1.2, fun h => ⟨⟨trivial, h⟩, trivial⟩⟩

lemma action {b : List Statement} (h : Walk.Passing i walk (Guarded i b)) (place : Place) {a : Action}
    (ha : ∀ version options, a ≠ .ruby version options) :
    Walk.Passing i (a.walk place walk) (Guarded i (a.entered b)) := by
  cases a with
  | gem name requirements options => exact fun carried => other rfl (guarded_nil i) carried
  | group names => exact .group names h
  | platform what =>
    intro carried
    unfold Action.walk Action.entered
    dsimp only
    split
    · exact h carried
    · exact other rfl (guarded_nil i) carried
  | ruby version options => exact absurd rfl (ha version options)
  | source url => exact .other rfl (guarded_nil i)

end Walk.Passing

namespace Statement
variable {i : Interpreter}

/-- the events of a statement but for a remark about its block -/
lemma passing_kind {kind : Kind} {place : Place} {args : List Value} {options : Options}
    {block : Option (Option (List Value) → Walk)} {p : Prop}
    (h : Walk.Passing i
      (Action.walkChecked place (block.getD .stay) (Action.of kind args options block.isSome)) p) :
    Walk.Passing i (kind.walk place args options block) p := by
  have first : Walk.Passing i
      (fun carried => if (block.isSome && !Action.takesBlock kind) = true then
        .one (.remark (ignoredBlock kind place)) carried else .stay carried) True := by
    intro carried
    dsimp only
    split
    · exact Walk.Passing.one Iff.rfl carried
    · exact Walk.Passing.stay carried
  intro carried
  rw [← true_and p]
  exact first.andThen h carried

lemma passing_ruby (place : Place) (args : List Value) (options : Options)
    (block : Option (Option (List Value) → Walk)) :
    Walk.Passing i (Kind.ruby.walk place args options block) (Passes i args options) := by
  refine passing_kind ?_
  rcases args with _ | ⟨v, _ | ⟨w, vs⟩⟩
  · refine .one (iff_of_false (fun h => h) ?_)
    rintro ⟨h, -⟩
    cases h
  · exact .one Iff.rfl
  · refine .one (iff_of_false (fun h => h) ?_)
    rintro ⟨h, -⟩
    cases h

theorem walkAll_passing (file : String) (ts : List Statement) :
    Walk.Passing i (walkAll file ts) (Guarded i ts) := by
  induction ts using induct with
  | nil =>
    intro carried
    rw [walkAll_nil]
    exact iff_of_true ((Walk.Passing.stay carried).mpr trivial) (guarded_nil i)
  | cons t ts block rest =>
    intro carried
    rw [walkAll_cons, guarded_cons]
    refine Walk.Passing.andThen ?_ rest carried
    have hblock : Walk.Passing i ((t.body.map (walkAll file)).getD .stay)
        (Guarded i (t.body.getD [])) := by
      cases hb : t.body with
      | none =>
        intro carried
        exact iff_of_true ((Walk.Passing.stay carried).mpr trivial) (guarded_nil i)
      | some b => exact block b hb
    rw [walk_eq]
    cases hk : Kind.ofName? t.name with
    | none =>
      refine .other rfl ⟨?_, ?_⟩
      · intro hr
        rw [hr, Kind.ofName?_name] at hk
        cases hk
      · rw [show t.entered = [] by unfold entered; rw [hk]]
        exact guarded_nil i
    | some kind =>
      dsimp only
      by_cases hr : kind = .ruby
      · subst hr
        have hname := (ofName?_ruby hk).mp rfl
        have hentered : t.entered = [] := by
          unfold entered
          rw [hk]
        intro carried
        refine (passing_ruby _ _ _ _ carried).trans ⟨?_, fun h => h.1 hname⟩
        intro h
        rw [hentered]
        exact ⟨fun _ => h, guarded_nil i⟩
      · have hname : t.name = Kind.ruby.name → Passes i t.args t.options :=
          fun h => absurd ((ofName?_ruby hk).mpr h) hr
        rw [and_iff_right hname]
        refine passing_kind ?_
        rw [Option.isSome_map]
        cases ha : Action.of kind t.args t.options t.body.isSome with
        | error m =>
          rw [entered_of_error hk ha]
          exact .other (Action.guards_of_error hr ha _) (guarded_nil i)
        | ok a =>
          rw [entered_of_ok hk ha]
          exact hblock.action _ (Action.of_ok_ne_ruby hr ha)

end Statement

/-- Guards only guard.  With a given interpreter a run ends well if and only if it does without its
guards and all of them that are reached are passed; and then it leaves the same behind without them.
Only the log differs. -/
theorem runAll_unguarded {g : Setting} {i : Interpreter} (hi : g.interpreter = some i)
    (ts : List Statement) (s : State) :
    ((Statement.runAll g ts s).fault = none ↔
      (Statement.runAll g (Statement.unguardedAll ts) s).fault = none ∧ Statement.Guarded i ts) ∧
    ((Statement.runAll g ts s).fault = none →
      ∃ log, Statement.runAll g (Statement.unguardedAll ts) s =
        (Statement.runAll g ts s).mapState fun t => { t with log := log }) := by
  have hstrips := Statement.walkAll_unguarded g.file ts s.currentGroups
  have hpassing := Statement.walkAll_passing (i := i) g.file ts s.currentGroups
  have fault : ∀ ts, (Statement.runAll g ts s).fault =
      (Statement.contribution g ts s.currentGroups s.detected).fault := by
    intro ts
    obtain ⟨log, h⟩ := Statement.runAll_through g ts s
    rw [h]
  have same : Statement.Guarded i ts →
      Statement.contribution g (Statement.unguardedAll ts) s.currentGroups s.detected =
        Statement.contribution g ts s.currentGroups s.detected := by
    intro hguarded
    have hevents : (Statement.walkAll g.file (Statement.unguardedAll ts) s.currentGroups).events.filter
        Event.effective = (Statement.walkAll g.file ts s.currentGroups).events.filter Event.kept :=
      congrArg Walk.events hstrips
    unfold Statement.contribution
    rw [← Event.contributions_effective, hevents,
      Event.contributions_kept hi (hpassing.mpr hguarded)]
  have guarded : (Statement.runAll g ts s).fault = none → Statement.Guarded i ts := by
    intro h
    rw [fault] at h
    exact hpassing.mp (Event.passed_of_contributions hi h)
  constructor
  · rw [fault (Statement.unguardedAll ts)]
    constructor
    · intro h
      have hguarded := guarded h
      rw [same hguarded, ← fault]
      exact ⟨h, hguarded⟩
    · rintro ⟨h, hguarded⟩
      rw [same hguarded] at h
      rw [fault, h]
  · intro h
    have hsame := same (guarded h)
    have hcarried : (Statement.walkAll g.file (Statement.unguardedAll ts) s.currentGroups).carried =
        (Statement.walkAll g.file ts s.currentGroups).carried := by
      show ((Statement.walkAll g.file (Statement.unguardedAll ts) s.currentGroups).effective).carried = _
      rw [hstrips]
      rfl
    rw [fault] at h
    obtain ⟨log, hrun⟩ := Statement.runAll_of_contribution h
    obtain ⟨log', hrun'⟩ := Statement.runAll_of_contribution (g := g) (s := s) (by rw [hsame]; exact h)
    refine ⟨log', ?_⟩
    rw [hrun, hrun', hsame, hcarried]
    rfl

/-- a guard in a group that is passed with its engine, and one with another engine in a platform block
behind it -/
theorem runAll_unguarded_group :
    let g : Setting := ⟨⟨0, ["gem.deps.rb"]⟩, [], some (.native "3.0.0"), ⟨none, .output ""⟩⟩
    let s : State := .start .standard
    let guard (engine : String) : Statement := ⟨"ruby", [.str "3.0.0"],
      [("engine", .str engine), ("engine_version", .str "3.0.0")], none, 2⟩
    let good : Statement :=
      ⟨"group", [.str "t"], [], some [guard "ruby", ⟨"gem", [.str "a"], [], none, 3⟩], 1⟩
    let left : Statement := ⟨"group", [.str "t"], [], some [⟨"gem", [.str "a"], [], none, 3⟩], 1⟩
    let bad : Statement := ⟨"platform", [.str "ruby"], [], some [guard "jruby"], 5⟩
    (∃ log, Statement.runAll g [left] s =
        (Statement.runAll g [good] s).mapState fun t => { t with log := log }) ∧
      (Statement.runAll g [good] s).fault = none ∧
      (Statement.runAll g [left] s).fault = none ∧
      (Statement.runAll g [good, bad] s).fault ≠ none := by
  intro g s guard good left bad
  have hi : g.interpreter = some (.native "3.0.0") := rfl
  have hgood : (Statement.runAll g [good] s).fault = none := by decide +kernel
  refine ⟨(runAll_unguarded hi [good] s).2 hgood, hgood, by decide +kernel, ?_⟩
  intro h
  obtain ⟨-, hguarded⟩ := (runAll_unguarded hi [good, bad] s).1.mp h
  have hreached : Statement.Reached [good, bad] (guard "jruby") :=
    .inside (List.mem_cons_of_mem good List.mem_cons_self) (.here List.mem_cons_self)
  rcases (hguarded (guard "jruby") hreached rfl).engine with hnone | ⟨hsame, -⟩
  · exact absurd hnone (by decide)
  · exact absurd hsame (by decide)

end Gemfile
