import Gemfile.Proofs.Erasure

/-!
# Statements without their guards

A `ruby` statement is a guard: it changes nothing, and stops a run that the interpreter at hand is not
right for.

* `Statement.unguarded`, `Statement.unguardedAll`   statements without the `ruby` statements in them
* `Event.guards`             what a `ruby` statement does
* `Walk.Strips`              a walk has the events of another one but for guards and remarks
* `Statement.walkAll_unguarded`   so has the walk of statements without their guards
-/

namespace Gemfile

namespace Statement

mutual

def unguarded : Statement → List Statement
  | ⟨name, args, options, body, line⟩ =>
    if name = Kind.ruby.name then []
    else
      match body with
      | none => [⟨name, args, options, none, line⟩]
      | some b => [⟨name, args, options, some (unguardedAll b), line⟩]

def unguardedAll : List Statement → List Statement
  | [] => []
  | t :: ts => unguarded t ++ unguardedAll ts

end

lemma unguarded_eq (t : Statement) :
    unguarded t = if t.name = Kind.ruby.name then []
      else [{ t with body := t.body.map unguardedAll }] := by
  obtain ⟨name, args, options, body, line⟩ := t
  rw [unguarded.eq_def]
  cases body <;> rfl

lemma ofName?_ruby {name : String} {kind : Kind} (h : Kind.ofName? name = some kind) :
    kind = .ruby ↔ name = Kind.ruby.name := by
  constructor
  · rintro rfl
    exact (Kind.name_of_ofName? h).symm
  · intro hr
    rw [hr, Kind.ofName?_name] at h
    exact (Option.some.inj h).symm

end Statement

/-! ## walks without guards -/

/-- an event of a `ruby` statement, be it that it has other arguments than one -/
def Event.guards : Event → Bool
  | .ruby _ _ => true
  | .fault (.misuse .notOneVersion _) => true
  | _ => false

/-- neither a remark nor a guard -/
def Event.kept (e : Event) : Bool := e.effective && !e.guards

/-- `walk'` has the events of `walk` but for its guards, remarks apart -/
def Walk.Strips (walk walk' : Option (List Value) → Walk) : Prop :=
  ∀ carried, (walk' carried).effective = (walk carried).filtered Event.kept

namespace Walk.Strips
variable {walk walk' next next' : Option (List Value) → Walk}

lemma stay : Walk.Strips .stay .stay := fun _ => rfl

lemma one {e : Event} (h : e.guards = false) : Walk.Strips (.one e) (.one e) := by
  intro carried
  have hk : e.kept = e.effective := by
    unfold Event.kept
    rw [h]
    exact Bool.and_true _
  show Walk.mk ([e].filter Event.effective) carried = Walk.mk ([e].filter Event.kept) carried
  rw [List.filter_cons, List.filter_cons, hk]
  rfl

lemma andThen (h : Walk.Strips walk walk') (h' : Walk.Strips next next') :
    Walk.Strips (fun carried => (walk carried).andThen next)
      fun carried => (walk' carried).andThen next' := by
  intro carried
  rw [Walk.andThen_effective, Walk.andThen_filtered, h carried, funext h']

lemma group (names : List Value) (h : Walk.Strips walk walk') :
    Walk.Strips (.group names walk) (.group names walk') := by
  intro carried
  rw [Walk.group_effective, Walk.group_filtered rfl rfl, funext h]

lemma action (h : Walk.Strips walk walk') (place : Place) {a : Action}
    (ha : ∀ version options, a ≠ .ruby version options) :
    Walk.Strips (a.walk place walk) (a.walk place walk') := by
  cases a with
  | gem name requirements options => exact fun _ => rfl
  | group names => exact .group names h
  | platform what =>
    intro carried
    unfold Action.walk
    dsimp only
    split
    · exact h carried
    · rfl
  | ruby version options => exact absurd rfl (ha version options)
  | source url => exact .one rfl

end Walk.Strips

namespace Action
variable {kind : Statement.Kind} {args : List Value} {options : Options} {b : Bool}

lemma of_ok_ne_ruby (hk : kind ≠ .ruby) {a : Action} (h : of kind args options b = .ok a)
    (version : Value) (options' : Options) : a ≠ .ruby version options' := by
  rintro rfl
  rcases of_ok h with ⟨-, n, rs, -, ha⟩ | ⟨-, -, ha⟩ | ⟨-, -, what, -, ha⟩ | ⟨rfl, -⟩ | ⟨-, u, ha⟩
  · cases ha
  · cases ha
  · cases ha
  · exact hk rfl
  · cases ha

/-- only a `ruby` statement has a guard for its fault -/
lemma guards_of_error (hk : kind ≠ .ruby) {m : Misuse} (h : of kind args options b = .error m)
    (place : Place) : (Event.fault (.misuse m place)).guards = false := by
  unfold of at h
  split at h
  · obtain rfl := Except.error.inj h
    rfl
  · rcases args with _ | ⟨v, _ | ⟨w, args⟩⟩ <;> cases kind <;> cases options <;>
      first | exact absurd rfl hk | cases h <;> rfl

end Action

lemma Walk.Strips.kind {kind : Statement.Kind} (hk : kind ≠ .ruby) (place : Place)
    (args : List Value) (options : Options) {block block' : Option (Option (List Value) → Walk)}
    (hb : block'.isSome = block.isSome) (h : Walk.Strips (block.getD .stay) (block'.getD .stay)) :
    Walk.Strips (kind.walk place args options block) (kind.walk place args options block') := by
  have first : Walk.Strips
      (fun carried => if (block.isSome && !Action.takesBlock kind) = true then
        .one (.remark (ignoredBlock kind place)) carried else .stay carried)
      (fun carried => if (block'.isSome && !Action.takesBlock kind) = true then
        .one (.remark (ignoredBlock kind place)) carried else .stay carried) := by
    intro carried
    rw [hb]
    split <;> rfl
  have rest : Walk.Strips
      (Action.walkChecked place (block.getD .stay) (Action.of kind args options block.isSome))
      (Action.walkChecked place (block'.getD .stay) (Action.of kind args options block'.isSome)) := by
    rw [hb]
    cases ha : Action.of kind args options block.isSome with
    | error m => exact .one (Action.guards_of_error hk ha place)
    | ok a => exact h.action place (Action.of_ok_ne_ruby hk ha)
  exact first.andThen rest

namespace Statement

/-- nothing is left of a guard but a remark about its block, if it has one -/
lemma walk_ruby {file : String} {t : Statement} (h : t.name = Kind.ruby.name) :
    Walk.Strips (walk file t) .stay := by
  have hk : Kind.ofName? t.name = some .ruby := by rw [h, Kind.ofName?_name]
  have hguard : ∀ (w : Option (List Value) → Walk) (carried : Option (List Value)),
      (Action.walkChecked ⟨file, t.line⟩ w (Action.ofArguments .ruby t.args t.options)
        carried).filtered Event.kept = .stay carried := by
    intro w carried
    rcases t.args with _ | ⟨v, _ | ⟨v', vs⟩⟩ <;> rfl
  intro carried
  rw [walk_eq, hk]
  cases t.body with
  | none =>
    dsimp only [Option.map]
    rw [Kind.walk_none]
    exact (hguard .stay carried).symm
  | some b =>
    dsimp only [Option.map]
    rw [Kind.walk_ignored _ _ rfl, Walk.andThen_filtered, funext (hguard (walkAll file b))]
    rfl

theorem walkAll_unguarded (file : String) (ts : List Statement) :
    Walk.Strips (walkAll file ts) (walkAll file (unguardedAll ts)) := by
  induction ts using induct with
  | nil =>
    rw [unguardedAll]
    exact fun _ => by rw [walkAll_nil]; rfl
  | cons t ts block rest =>
    rw [unguardedAll, walkAll_cons, walkAll_append, unguarded_eq]
    by_cases ht : t.name = Kind.ruby.name
    · rw [if_pos ht, walkAll_nil]
      exact (walk_ruby ht).andThen rest
    · rw [if_neg ht, walkAll_singleton]
      refine Walk.Strips.andThen ?_ rest
      rw [walk_eq, walk_eq]
      dsimp only
      cases hk : Kind.ofName? t.name with
      | none => exact .one rfl
      | some kind =>
        have hruby : kind ≠ .ruby := fun e => ht ((ofName?_ruby hk).mp e)
        refine .kind hruby _ _ _ (by simp) ?_
        cases hb : t.body with
        | none => exact .stay
        | some b => exact block b hb

end Statement

end Gemfile
