import Gemfile.Proofs.Walk.Behind

/-!
# Statements without what is never evaluated

* `Statement.platformOf?`   the platform that a well-formed platform statement names
* `Statement.erase`, `Statement.eraseAll`   a platform block stands in place of its statement if it is for
                            the native platform and is left out if not, and the statements that are not
                            about their block have none
* `Statement.Normal`        statements with nothing left to erase
* `Event.effective`, `Walk.effective`   all but the remarks, which change the log only
* `Walk.filtered p`         a walk with those of its events that have a property
* `Statement.walkAll_eraseAll`   erasing takes the remarks out of a walk, and nothing else
* `runAll_erased`           so what is left runs like the whole, but for the log
-/

namespace Gemfile

namespace Statement

/-- the platform that a statement with a block is about: one argument and no options -/
def platformOf? (name : String) (args : List Value) (options : Options) : Option Value :=
  match Kind.ofName? name, args, options with
  | some .platform, [what], [] => some what
  | some .platforms, [what], [] => some what
  | _, _, _ => none

/-- a block is no part of what a `gem`, `ruby` or `source` statement does -/
def ignoresBlock (name : String) : Bool :=
  match Kind.ofName? name with
  | some .gem | some .ruby | some .source => true
  | _ => false

mutual

def erase : Statement → List Statement
  | ⟨name, args, options, body, line⟩ =>
    match body with
    | none => [⟨name, args, options, none, line⟩]
    | some b =>
      match platformOf? name args options with
      | some what => if what = .str nativePlatform then eraseAll b else []
      | none =>
        [⟨name, args, options, if ignoresBlock name then none else some (eraseAll b), line⟩]

def eraseAll : List Statement → List Statement
  | [] => []
  | t :: ts => erase t ++ eraseAll ts

end

/-- no well-formed platform statement, and no block that is ignored, at any depth -/
inductive Normal : List Statement → Prop where
  | nil : Normal []
  | cons (t : Statement) (ts : List Statement) :
    (t.body.isSome → platformOf? t.name t.args t.options = none ∧ ignoresBlock t.name = false) →
    (∀ b, t.body = some b → Normal b) → Normal ts → Normal (t :: ts)

lemma erase_eq (t : Statement) :
    erase t = match t.body with
      | none => [t]
      | some b =>
        match platformOf? t.name t.args t.options with
        | some what => if what = .str nativePlatform then eraseAll b else []
        | none =>
          [{ t with body := if ignoresBlock t.name then none else some (eraseAll b) }] := by
  obtain ⟨name, args, options, body, line⟩ := t
  rw [erase.eq_def]
  cases body <;> rfl

lemma eraseAll_nil : eraseAll [] = [] := by
  rw [eraseAll]

lemma eraseAll_cons (t : Statement) (ts : List Statement) :
    eraseAll (t :: ts) = erase t ++ eraseAll ts := by
  rw [eraseAll]

lemma Normal.append {ts us : List Statement} (h : Normal ts) (h' : Normal us) :
    Normal (ts ++ us) := by
  induction h with
  | nil => exact h'
  | cons t ts h1 h2 _ _ ih => exact .cons t (ts ++ us) h1 h2 ih

theorem normal_eraseAll (ts : List Statement) : Normal (eraseAll ts) := by
  refine induct (P := fun ts => Normal (eraseAll ts)) ?_ ?_ ts
  · rw [eraseAll_nil]
    exact .nil
  · intro t ts hb h
    rw [eraseAll_cons]
    refine .append ?_ h
    rw [erase_eq]
    cases ht : t.body with
    | none => exact .cons t [] (by simp [ht]) (by simp [ht]) .nil
    | some b =>
      dsimp only
      cases hp : platformOf? t.name t.args t.options with
      | some what =>
        by_cases hw : what = .str nativePlatform
        · simp only [if_pos hw]
          exact hb b ht
        · simp only [if_neg hw]
          exact .nil
      | none =>
        cases hi : ignoresBlock t.name with
        | true => exact .cons _ [] (by simp) (by simp) .nil
        | false =>
          refine .cons _ [] (fun _ => ⟨hp, hi⟩) ?_ .nil
          rintro _ ⟨⟩
          exact hb b ht

example : eraseAll [⟨"platform", [.str "ruby"], [], some [⟨"gem", [.str "a"], [], some [], 2⟩], 1⟩,
    ⟨"platforms", [.str "mswin"], [], some [⟨"gem", [.str "b"], [], none, 5⟩], 4⟩] =
      [⟨"gem", [.str "a"], [], none, 2⟩] := rfl

end Statement

/-! ## remarks -/

/-- all but a remark -/
def Event.effective : Event → Bool
  | .remark _ => false
  | _ => true

/-- the events with a property -/
def Walk.filtered (p : Event → Bool) (w : Walk) : Walk := { w with events := w.events.filter p }

def Walk.effective (w : Walk) : Walk := { w with events := w.events.filter Event.effective }

lemma Walk.andThen_filtered (p : Event → Bool) (w : Walk) (next : Option (List Value) → Walk) :
    (w.andThen next).filtered p = (w.filtered p).andThen fun carried => (next carried).filtered p := by
  unfold andThen filtered
  rw [List.filter_append]

/-- the two ends of a group stay where they are -/
lemma Walk.group_filtered {p : Event → Bool} {names : List Value} (he : p (.enter names) = true)
    (hl : p .leave = true) (block : Option (List Value) → Walk) (carried : Option (List Value)) :
    (Walk.group names block carried).filtered p =
      .group names (fun carried => (block carried).filtered p) carried := by
  show Walk.mk (List.filter _ (.enter names :: (block (some names)).events ++ [.leave])) _ = _
  rw [List.filter_append, List.filter_cons_of_pos he, List.filter_cons_of_pos hl]
  rfl

lemma Walk.andThen_effective (w : Walk) (next : Option (List Value) → Walk) :
    (w.andThen next).effective = w.effective.andThen fun carried => (next carried).effective :=
  Walk.andThen_filtered _ w next

lemma Walk.group_effective (names : List Value) (block : Option (List Value) → Walk)
    (carried : Option (List Value)) :
    (Walk.group names block carried).effective =
      .group names (fun carried => (block carried).effective) carried :=
  Walk.group_filtered rfl rfl block carried

namespace Event
variable {g : Setting}

lemma contributions_effective (es : List Event) (m : Interpreter.Memory) :
    contributions g (es.filter effective) m = contributions g es m := by
  induction es generalizing m with
  | nil => rfl
  | cons e es ih =>
    cases e with
    | remark entry =>
      rw [List.filter_cons_of_neg Bool.false_ne_true, ih]
      rfl
    | _ =>
      rw [List.filter_cons_of_pos rfl, contributions, contributions, funext ih]

lemma through_effective (es : List Event) (m : Interpreter.Memory) :
    through g (es.filter effective) m = (through g es m).filter effective := by
  induction es generalizing m with
  | nil => rfl
  | cons e es ih =>
    cases he : e.effective with
    | false =>
      obtain ⟨entry, rfl⟩ : ∃ entry, e = .remark entry := by
        cases e <;> first | exact ⟨_, rfl⟩ | cases he
      rw [List.filter_cons_of_neg Bool.false_ne_true, ih]
      rfl
    | true =>
      rw [List.filter_cons_of_pos he, through, through]
      cases (e.contribution g m).fault with
      | none =>
        dsimp only
        rw [List.filter_cons_of_pos he, ih]
      | some f => rfl

lemma behind_effective (es : List Event) (carried : Option (List Value)) :
    behind (es.filter effective) carried = behind es carried := by
  have h : (fun e : Event => e.effective && e.enters) = enters := by
    funext e
    cases e <;> rfl
  unfold behind
  rw [List.any_filter, h]

end Event

/-! ## the walk of what is left -/

namespace Action
variable {kind : Statement.Kind} {args : List Value} {options : Options} {a : Action}

/-- an action that is not about a block -/
def blockless : Action → Bool
  | .group _ | .platform _ => false
  | _ => true

lemma blockless_of (h : ofArguments kind args options = .ok a) : a.blockless = !takesBlock kind := by
  rcases args with _ | ⟨v, _ | ⟨w, args⟩⟩ <;> cases kind <;> cases options <;> cases h <;> rfl

lemma of_platform {what : Value} : of kind args options false ≠ .ok (.platform what) := by
  intro h
  unfold of at h
  cases ht : takesBlock kind with
  | true =>
    rw [ht] at h
    cases h
  | false =>
    rw [ht] at h
    have h1 := blockless_of h
    rw [ht] at h1
    cases h1

lemma of_eq_ofArguments {b : Bool} (h : takesBlock kind = true → b = true) :
    of kind args options b = ofArguments kind args options := by
  unfold of
  cases ht : takesBlock kind with
  | true =>
    rw [h ht]
    rfl
  | false => rfl

/-- the walk of an action whose arguments are checked -/
def walkChecked (place : Place) (w : Option (List Value) → Walk) (checked : Except Misuse Action)
    (carried : Option (List Value)) : Walk :=
  match checked with
  | .error m => .one (.fault (.misuse m place)) carried
  | .ok a => a.walk place w carried

variable (place : Place) (w w' : Option (List Value) → Walk)

lemma walkChecked_blockless {x : Except Misuse Action} (h : ∀ a, x = .ok a → a.blockless = true) :
    walkChecked place w x = walkChecked place w' x := by
  funext carried
  cases x with
  | error m => rfl
  | ok a =>
    have h1 := h a rfl
    cases a <;> first | rfl | cases h1

lemma walkChecked_effective {x : Except Misuse Action} (h : ∀ what, x ≠ .ok (.platform what)) :
    (fun carried => (walkChecked place w x carried).effective) =
      walkChecked place (fun carried => (w carried).effective) x := by
  funext carried
  cases x with
  | error m => rfl
  | ok a =>
    cases a with
    | group names => exact Walk.group_effective names w carried
    | platform what => exact absurd rfl (h what)
    | _ => rfl

end Action

namespace Statement

section
variable {name : String} {kind : Kind} {args : List Value} {options : Options}

lemma ofArguments_platform (hk : Kind.ofName? name = some kind) {what : Value} :
    Action.ofArguments kind args options = .ok (.platform what) ↔
      platformOf? name args options = some what := by
  unfold platformOf?
  rw [hk]
  rcases args with _ | ⟨v, _ | ⟨w, args⟩⟩ <;> cases kind <;> cases options <;>
    simp [Action.ofArguments]

lemma ignoresBlock_eq (hk : Kind.ofName? name = some kind) :
    ignoresBlock name = !Action.takesBlock kind := by
  unfold ignoresBlock
  rw [hk]
  cases kind <;> rfl

variable (place : Place) (w : Option (List Value) → Walk)

lemma Kind.walk_none : kind.walk place args options none =
    Action.walkChecked place .stay (Action.of kind args options false) := by
  funext carried
  unfold Kind.walk
  rfl

lemma Kind.walk_taken (h : Action.takesBlock kind = true) : kind.walk place args options (some w) =
    Action.walkChecked place w (Action.ofArguments kind args options) := by
  funext carried
  rw [← Action.of_eq_ofArguments (b := true) fun _ => rfl]
  unfold Kind.walk
  rw [h]
  rfl

lemma Kind.walk_ignored (h : Action.takesBlock kind = false) :
    kind.walk place args options (some w) = fun carried =>
      (Walk.one (.remark (ignoredBlock kind place)) carried).andThen
        (Action.walkChecked place w (Action.ofArguments kind args options)) := by
  funext carried
  rw [← Action.of_eq_ofArguments (b := true) fun _ => rfl]
  unfold Kind.walk
  rw [h]
  rfl

/-- without a block nothing is left out of a walk, since there is no remark in it -/
lemma Kind.walk_none_effective :
    (fun carried => (kind.walk place args options none carried).effective) =
      kind.walk place args options none := by
  rw [Kind.walk_none]
  exact Action.walkChecked_effective place .stay fun _ => Action.of_platform

/-- a block that is ignored can be left out -/
lemma Kind.walk_ignored_effective (h : Action.takesBlock kind = false) :
    (fun carried => (kind.walk place args options (some w) carried).effective) =
      kind.walk place args options none := by
  have hof : Action.of kind args options false = Action.ofArguments kind args options :=
    Action.of_eq_ofArguments fun ht => by rw [h] at ht; exact ht
  have hblockless : ∀ a, Action.ofArguments kind args options = .ok a → a.blockless = true := by
    intro a ha
    rw [Action.blockless_of ha, h]
    rfl
  rw [Kind.walk_ignored place w h, ← Kind.walk_none_effective, Kind.walk_none, hof,
    Action.walkChecked_blockless place .stay w hblockless]
  funext carried
  rw [Walk.andThen_effective]
  rfl

/-- a block that is taken can be walked without its remarks -/
lemma Kind.walk_taken_effective (h : Action.takesBlock kind = true)
    (hp : ∀ what, Action.ofArguments kind args options ≠ .ok (.platform what)) :
    (fun carried => (kind.walk place args options (some w) carried).effective) =
      kind.walk place args options (some fun carried => (w carried).effective) := by
  rw [Kind.walk_taken place _ h, Kind.walk_taken place _ h]
  exact Action.walkChecked_effective place w hp

end

lemma walkAll_singleton (file : String) (t : Statement) : walkAll file [t] = walk file t := by
  funext carried
  rw [walkAll_cons, walkAll_nil]
  show Walk.mk (_ ++ []) _ = _
  rw [List.append_nil]
  rfl

lemma walkAll_append (file : String) (ts us : List Statement) :
    walkAll file (ts ++ us) = fun carried => (walkAll file ts carried).andThen (walkAll file us) := by
  induction ts with
  | nil =>
    rw [walkAll_nil]
    rfl
  | cons t ts ih =>
    funext carried
    rw [List.cons_append, walkAll_cons, walkAll_cons, ih]
    show Walk.mk (_ ++ (_ ++ _)) _ = Walk.mk ((_ ++ _) ++ _) _
    rw [List.append_assoc]
    rfl

lemma walk_platform {file : String} {t : Statement} {b : List Statement} {what : Value}
    (hb : t.body = some b) (hp : platformOf? t.name t.args t.options = some what) :
    walk file t = fun carried =>
      if what = .str nativePlatform then walkAll file b carried
      else .one (.remark (skippedPlatform what)) carried := by
  rw [walk_eq, hb]
  cases hk : Kind.ofName? t.name with
  | none =>
    unfold platformOf? at hp
    rw [hk] at hp
    cases hp
  | some kind =>
    have ha := (ofArguments_platform hk).mpr hp
    have ht : Action.takesBlock kind = true := by
      simpa [Action.blockless] using Action.blockless_of ha
    dsimp only [Option.map]
    rw [Kind.walk_taken _ _ ht, ha]
    rfl

/-- any other block is left out if it is ignored, and stays without its remarks if not -/
lemma walk_kept {file : String} {t : Statement} {b b' : List Statement} (hb : t.body = some b)
    (hp : platformOf? t.name t.args t.options = none)
    (h : walkAll file b' = fun carried => (walkAll file b carried).effective) :
    walk file { t with body := if ignoresBlock t.name then none else some b' } =
      fun carried => (walk file t carried).effective := by
  rw [walk_eq, walk_eq file t, hb]
  dsimp only
  cases hk : Kind.ofName? t.name with
  | none => rfl
  | some kind =>
    have hne : ∀ what, Action.ofArguments kind t.args t.options ≠ .ok (.platform what) := by
      intro what ha
      rw [(ofArguments_platform hk).mp ha] at hp
      cases hp
    rw [ignoresBlock_eq hk]
    cases ht : Action.takesBlock kind with
    | true =>
      dsimp only [Option.map]
      rw [Kind.walk_taken_effective _ _ ht hne, ← h]
      rfl
    | false => exact (Kind.walk_ignored_effective _ _ ht).symm

lemma walkAll_erase (file : String) (t : Statement)
    (h : ∀ b, t.body = some b →
      walkAll file (eraseAll b) = fun carried => (walkAll file b carried).effective) :
    walkAll file (erase t) = fun carried => (walk file t carried).effective := by
  rw [erase_eq]
  cases hb : t.body with
  | none =>
    rw [walkAll_singleton, walk_eq, hb]
    cases Kind.ofName? t.name with
    | none => rfl
    | some kind => exact (Kind.walk_none_effective _).symm
  | some b =>
    dsimp only
    cases hp : platformOf? t.name t.args t.options with
    | some what =>
      rw [walk_platform hb hp]
      by_cases hw : what = .str nativePlatform
      · simp only [if_pos hw, h b hb]
      · simp only [if_neg hw, walkAll_nil]
        rfl
    | none =>
      rw [walkAll_singleton]
      exact walk_kept hb hp (h b hb)

theorem walkAll_eraseAll (file : String) (ts : List Statement) :
    walkAll file (eraseAll ts) = fun carried => (walkAll file ts carried).effective := by
  refine induct (P := fun ts => walkAll file (eraseAll ts) =
    fun carried => (walkAll file ts carried).effective) ?_ ?_ ts
  · rw [eraseAll_nil, walkAll_nil]
    rfl
  · intro t ts hb h
    funext carried
    rw [eraseAll_cons, walkAll_append, walkAll_erase file t hb, h, walkAll_cons,
      Walk.andThen_effective]

end Statement

/-- Statements without what is never evaluated run like the whole: they end in the same way and leave
the same behind, whether a fault stops them or not.  Only the log differs. -/
theorem runAll_erased (g : Setting) (ts : List Statement) (s : State) :
    Statement.Normal (Statement.eraseAll ts) ∧
      ∃ log, Statement.runAll g (Statement.eraseAll ts) s =
        (Statement.runAll g ts s).mapState fun t => { t with log := log } := by
  refine ⟨Statement.normal_eraseAll ts, ?_⟩
  have he : Statement.eventsFrom g (Statement.eraseAll ts) s =
      (Statement.eventsFrom g ts s).filter Event.effective := by
    unfold Statement.eventsFrom
    rw [Statement.walkAll_eraseAll]
    rfl
  have hc : Statement.contribution g (Statement.eraseAll ts) s.currentGroups s.detected =
      Statement.contribution g ts s.currentGroups s.detected := by
    show Event.contributions g (Statement.eventsFrom g (Statement.eraseAll ts) s) s.detected = _
    rw [he, Event.contributions_effective]
    rfl
  obtain ⟨log, h⟩ := Statement.runAll_through g (Statement.eraseAll ts) s
  obtain ⟨log', h'⟩ := Statement.runAll_through g ts s
  refine ⟨log, ?_⟩
  rw [h, h', hc, he, Event.through_effective, Event.behind_effective]
  rfl

end Gemfile
