import Gemfile.Evaluation.Run
import Mathlib.Tactic.Lemma

/-!
# Walks over statements

Which statements a run reaches, and the groups that each gem is in, is seen from the statements
alone.  One walk from left to right lists it; the run is then the effect of the list.

* `GemCall`           a gem statement and the groups carried to it
* `Event`             what a reached statement does
* `Walk`              events in order, and the groups carried behind them
* `Action.of_ok`      what a statement asks for is seen from its name and its arguments
* `Statement.walk`, `Statement.walkAll`   the walk of a statement, of statements in order
* `Walk.Closed`       properties of walks that hold of the walk of all statements
* `Statement.walkAll_carried`, `Statement.fault_walkAll`   two of them: what is carried behind a walk, and
                      which faults are among its events
* `Event.run`, `Event.runAll`   the effect of events; a gem sees the groups carried to it only
-/

namespace Gemfile

namespace Outcome

lemma andThen_eq_done {o : Outcome} {next : State → Outcome} {t : State} :
    o.andThen next = .done t ↔ ∃ s, o = .done s ∧ next s = .done t := by
  obtain ⟨s, f⟩ := o
  cases f <;> simp [andThen, done]

lemma mapState_eq_done {o : Outcome} {f : State → State} {t : State} :
    o.mapState f = .done t ↔ ∃ s, o = .done s ∧ f s = t := by
  obtain ⟨s, e⟩ := o
  constructor
  · intro h
    cases h
    exact ⟨s, rfl, rfl⟩
  · rintro ⟨u, h, rfl⟩
    cases h
    rfl

lemma mapFault_eq_done {o : Outcome} {f : Fault → Fault} {t : State} :
    o.mapFault f = .done t ↔ o = .done t := by
  obtain ⟨s, e⟩ := o
  simp [mapFault, done]

end Outcome

structure GemCall where
  name : Value
  requirements : List Value
  options : Options
  /-- the names of the group block at hand -/
  carried : Option (List Value)
  place : Place

inductive Event where
  | gem (call : GemCall)
  | ruby (version : Value) (options : Options)
  | source (url : Value)
  | remark (entry : Log.Entry)
  | fault (f : Fault)
  /-- a group block begins; the events up to its `leave` stand in it -/
  | enter (names : List Value)
  | leave

structure Walk where
  events : List Event
  carried : Option (List Value)

namespace Walk

def stay (carried : Option (List Value)) : Walk := ⟨[], carried⟩

def one (e : Event) (carried : Option (List Value)) : Walk := ⟨[e], carried⟩

def andThen (w : Walk) (next : Option (List Value) → Walk) : Walk :=
  ⟨w.events ++ (next w.carried).events, (next w.carried).carried⟩

/-- a group block is walked with its names carried and leaves none behind -/
def group (names : List Value) (block : Option (List Value) → Walk) (_ : Option (List Value)) :
    Walk :=
  ⟨.enter names :: (block (some names)).events ++ [.leave], none⟩

end Walk

def ignoredBlock (kind : Statement.Kind) (place : Place) : Log.Entry :=
  ⟨.warning, .evaluation, "Ignoring the block passed to `" ++ kind.name ++ "' in " ++ place.text⟩

def skippedPlatform (what : Value) : Log.Entry :=
  ⟨.info, .evaluation, "Skipping dependencies for platform " ++ what.text⟩

/-- a platform block is walked with what is carried to it, if it is for the native platform -/
def Action.walk (place : Place) (block : Option (List Value) → Walk) :
    Action → Option (List Value) → Walk
  | .gem name requirements options, carried =>
    .one (.gem ⟨name, requirements, options, carried, place⟩) carried
  | .group names, carried => .group names block carried
  | .platform what, carried =>
    if what = .str nativePlatform then block carried else .one (.remark (skippedPlatform what)) carried
  | .ruby version options, carried => .one (.ruby version options) carried
  | .source url, carried => .one (.source url) carried

/-- what a statement asks for, by its kind -/
lemma Action.of_ok {kind : Statement.Kind} {args : List Value} {options : Options} {block : Bool}
    {a : Action} (h : Action.of kind args options block = .ok a) :
    (kind = .gem ∧ ∃ n rs, args = n :: rs ∧ a = .gem n rs options) ∨
    (kind = .group ∧ block = true ∧ a = .group args) ∨
    ((kind = .platform ∨ kind = .platforms) ∧ block = true ∧ ∃ what, args = [what] ∧
      a = .platform what) ∨
    (kind = .ruby ∧ ∃ v, a = .ruby v options) ∨ kind = .source ∧ ∃ u, a = .source u := by
  cases kind with
  | gem =>
    cases args with
    | nil => cases h
    | cons n rs =>
      cases h
      exact .inl ⟨rfl, n, rs, rfl, rfl⟩
  | group =>
    cases block with
    | false => cases h
    | true =>
      rcases args with _ | ⟨n, ns⟩ <;> cases options <;> cases h
      exact .inr (.inl ⟨rfl, rfl, rfl⟩)
  | platform =>
    cases block with
    | false => cases h
    | true =>
      rcases args with _ | ⟨what, _ | ⟨v, vs⟩⟩ <;> cases options <;> cases h
      exact .inr (.inr (.inl ⟨.inl rfl, rfl, what, rfl, rfl⟩))
  | platforms =>
    cases block with
    | false => cases h
    | true =>
      rcases args with _ | ⟨what, _ | ⟨v, vs⟩⟩ <;> cases options <;> cases h
      exact .inr (.inr (.inl ⟨.inr rfl, rfl, what, rfl, rfl⟩))
  | ruby =>
    rcases args with _ | ⟨version, _ | ⟨v, vs⟩⟩ <;> cases h
    exact .inr (.inr (.inr (.inl ⟨rfl, version, rfl⟩)))
  | source =>
    rcases args with _ | ⟨url, _ | ⟨v, vs⟩⟩ <;> cases options <;> cases h
    exact .inr (.inr (.inr (.inr ⟨rfl, url, rfl⟩)))

namespace Statement

lemma Kind.name_of_ofName? {name : String} {kind : Kind} (h : Kind.ofName? name = some kind) :
    kind.name = name :=
  beq_iff_eq.mp (List.find?_some (p := fun k : Kind => k.name == name) h)

def Kind.walk (kind : Kind) (place : Place) (args : List Value) (options : Options)
    (block : Option (Option (List Value) → Walk)) (carried : Option (List Value)) : Walk :=
  let ignored := block.isSome && !Action.takesBlock kind
  let first : Walk := if ignored then .one (.remark (ignoredBlock kind place)) carried else .stay carried
  first.andThen
    fun carried =>
      match Action.of kind args options block.isSome with
      | .error m => .one (.fault (.misuse m place)) carried
      | .ok action => action.walk place (block.getD .stay) carried

mutual

def walk (file : String) : Statement → Option (List Value) → Walk
  | ⟨name, args, options, body, line⟩, carried =>
    match Kind.ofName? name with
    | none => .one (.fault (.undefinedStatement name ⟨file, line⟩)) carried
    | some kind =>
      match body with
      | none => kind.walk ⟨file, line⟩ args options none carried
      | some b => kind.walk ⟨file, line⟩ args options (some (walkAll file b)) carried

def walkAll (file : String) : List Statement → Option (List Value) → Walk
  | [], carried => .stay carried
  | t :: ts, carried => (walk file t carried).andThen (walkAll file ts)

end

end Statement

/-- a fault of a statement that is none, or that does not fit -/
def Fault.ofStatement : Fault → Bool
  | .undefinedStatement _ _ => true
  | .misuse _ _ => true
  | _ => false

/-- the state outside every group block -/
def State.leave (s : State) : State := { s with currentGroups := none }

namespace Event

def run (g : Setting) : Event → State → Outcome
  | .gem c, s =>
    ((State.declare g c.name c.requirements c.options { s with currentGroups := c.carried }).mapFault
      (Fault.located c.place)).mapState State.leave
  | .ruby version options, s => s.checkRuby g version options
  | .source url, s => .done (s.addSource url)
  | .remark entry, s => .done (s.write [entry])
  | .fault f, s => .failed s f
  | .enter _, s => .done s
  | .leave, s => .done s

def runAll (g : Setting) : List Event → State → Outcome
  | [], s => .done s
  | e :: es, s => (e.run g s).andThen (runAll g es)

def call? : Event → Option GemCall
  | .gem c => some c
  | _ => none

lemma filterMap_call?_cons (e : Event) (es : List Event) :
    (e :: es).filterMap call? = e.call?.toList ++ es.filterMap call? := by
  rw [List.filterMap_cons]
  cases e.call? <;> rfl

/-- no gem, no end of a block, and no fault but that of a statement that cannot be evaluated -/
def plain : Event → Bool
  | .gem _ | .enter _ | .leave => false
  | .fault f => f.ofStatement
  | _ => true

theorem runAll_append (g : Setting) (es fs : List Event) (s : State) :
    runAll g (es ++ fs) s = (runAll g es s).andThen (runAll g fs) := by
  induction es generalizing s with
  | nil => rfl
  | cons e es ih =>
    have h : runAll g (es ++ fs) = fun t => (runAll g es t).andThen (runAll g fs) := by
      funext t
      exact ih t
    rw [List.cons_append, runAll, runAll, h, Outcome.andThen_assoc]

lemma runAll_group (g : Setting) (names : List Value) (es : List Event) :
    runAll g (.enter names :: es ++ [.leave]) = runAll g es := by
  funext s
  rw [runAll_append]
  exact Outcome.andThen_done _

end Event

namespace Statement

lemma walk_eq (file : String) (t : Statement) :
    walk file t =
      match Kind.ofName? t.name with
      | none => .one (.fault (.undefinedStatement t.name ⟨file, t.line⟩))
      | some kind => kind.walk ⟨file, t.line⟩ t.args t.options (t.body.map (walkAll file)) := by
  obtain ⟨name, args, options, body, line⟩ := t
  funext carried
  rw [walk]
  cases Kind.ofName? name with
  | none => rfl
  | some kind => cases body <;> rfl

lemma walkAll_nil (file : String) : walkAll file [] = .stay := by
  funext carried
  rw [walkAll]

lemma walkAll_cons (file : String) (t : Statement) (ts : List Statement) :
    walkAll file (t :: ts) = fun carried => (walk file t carried).andThen (walkAll file ts) := by
  funext carried
  rw [walkAll]

end Statement

/-- a property of walks that holds of the events of a walk one by one, and of walks put together -/
structure Walk.Closed (P : (Option (List Value) → Walk) → Prop) : Prop where
  stay : P .stay
  gem : ∀ name requirements options place,
    P fun carried => .one (.gem ⟨name, requirements, options, carried, place⟩) carried
  plain : ∀ e : Event, e.plain = true → P (.one e)
  andThen : ∀ w w', P w → P w' → P fun carried => (w carried).andThen w'
  group : ∀ w names, P w → P (.group names w)

namespace Walk.Closed
variable {P : (Option (List Value) → Walk) → Prop}

lemma action (hP : Walk.Closed P) (place : Place) {block : Option (List Value) → Walk}
    (h : P block) (a : Action) : P (a.walk place block) := by
  cases a with
  | gem name requirements options => exact hP.gem name requirements options place
  | group names => exact hP.group block names h
  | platform what =>
    by_cases hw : what = .str nativePlatform
    · rw [show Action.walk place block (.platform what) = block from funext fun _ => if_pos hw]
      exact h
    · rw [show Action.walk place block (.platform what) = .one (.remark (skippedPlatform what))
        from funext fun _ => if_neg hw]
      exact hP.plain _ rfl
  | ruby version options => exact hP.plain _ rfl
  | source url => exact hP.plain _ rfl

lemma kind (hP : Walk.Closed P) (kind : Statement.Kind) (place : Place) (args : List Value)
    (options : Options) {block : Option (Option (List Value) → Walk)} (h : P (block.getD .stay)) :
    P (kind.walk place args options block) := by
  have first : P fun carried =>
      if (block.isSome && !Action.takesBlock kind) = true then
        .one (.remark (ignoredBlock kind place)) carried
      else .stay carried := by
    by_cases hi : (block.isSome && !Action.takesBlock kind) = true
    · simp only [if_pos hi]
      exact hP.plain _ rfl
    · simp only [if_neg hi]
      exact hP.stay
  have rest : P fun carried =>
      match Action.of kind args options block.isSome with
      | .error m => .one (.fault (.misuse m place)) carried
      | .ok a => a.walk place (block.getD .stay) carried := by
    cases Action.of kind args options block.isSome with
    | error m => exact hP.plain _ rfl
    | ok a => exact hP.action place h a
  exact hP.andThen _ _ first rest

theorem walkAll (hP : Walk.Closed P) (file : String) (ts : List Statement) :
    P (Statement.walkAll file ts) := by
  refine Statement.induct (P := fun ts => P (Statement.walkAll file ts)) ?_ ?_ ts
  · rw [Statement.walkAll_nil]
    exact hP.stay
  · intro t ts hb h
    rw [Statement.walkAll_cons]
    refine hP.andThen (Statement.walk file t) _ ?_ h
    rw [Statement.walk_eq]
    cases Statement.Kind.ofName? t.name with
    | none => exact hP.plain _ rfl
    | some k =>
      refine hP.kind k _ _ _ ?_
      cases hbody : t.body with
      | none => exact hP.stay
      | some b => exact hb b hbody

end Walk.Closed

lemma Statement.walkAll_carried (file : String) (ts : List Statement)
    (carried : Option (List Value)) :
    (walkAll file ts carried).carried = carried ∨ (walkAll file ts carried).carried = none := by
  have closed : Walk.Closed fun w => ∀ carried,
      (w carried).carried = carried ∨ (w carried).carried = none := by
    constructor
    · exact fun _ => .inl rfl
    · exact fun _ _ _ _ _ => .inl rfl
    · exact fun _ _ _ => .inl rfl
    · intro w w' h h' carried
      show (w' (w carried).carried).carried = _ ∨ (w' (w carried).carried).carried = _
      rcases h carried with hc | hc
      · rw [hc]
        exact h' carried
      · rw [hc]
        exact .inr (or_self_iff.mp (h' none))
    · exact fun _ _ _ _ => .inr rfl
  exact closed.walkAll file ts carried

/-- the faults among the events of a walk are those of statements that cannot be evaluated -/
theorem Statement.fault_walkAll (file : String) (ts : List Statement)
    (carried : Option (List Value)) {f : Fault}
    (h : .fault f ∈ (walkAll file ts carried).events) : f.ofStatement = true := by
  have closed : Walk.Closed fun w =>
      ∀ carried f, .fault f ∈ (w carried).events → f.ofStatement = true := by
    constructor
    · exact fun _ _ hf => nomatch hf
    · exact fun _ _ _ _ _ _ hf => nomatch List.mem_singleton.mp hf
    · intro e he _ f hf
      rw [← List.mem_singleton.mp hf] at he
      exact he
    · intro w w' h h' carried f hf
      rcases List.mem_append.mp hf with hf | hf
      · exact h _ _ hf
      · exact h' _ _ hf
    · intro w names h _ f hf
      rcases List.mem_append.mp hf with hf | hf
      · rcases List.mem_cons.mp hf with hf | hf
        · cases hf
        · exact h _ _ hf
      · exact nomatch List.mem_singleton.mp hf
  exact closed.walkAll file ts carried f h

end Gemfile
