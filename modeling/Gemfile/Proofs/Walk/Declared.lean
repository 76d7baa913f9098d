import Gemfile.Proofs.Walk

/-!
# The gems that statements declare

Statements are read from left to right by their names and arguments alone, and the groups of the block
at hand are carried along.  A `group` statement is read with its arguments carried and leaves nothing
behind, a `platform` or `platforms` statement is read with what is carried to it if it is for `ruby`, and
no other block is read.

* `Statement.declared`, `Statement.declaredAll`   the gems that are read, and what is carried behind them
* `Walk.Declares`                  a walk without faults comes to the gems that are read
* `Statement.walkAll_declares`     as that of all statements does
* `Event.call?_of_done`            so a run that ends well has come to them
-/

namespace Gemfile

/-- gems in order, and the groups carried behind them -/
structure Declared where
  calls : List GemCall
  carried : Option (List Value)

namespace Declared

def stay (carried : Option (List Value)) : Declared := ⟨[], carried⟩

def andThen (d : Declared) (next : Option (List Value) → Declared) : Declared :=
  ⟨d.calls ++ (next d.carried).calls, (next d.carried).carried⟩

end Declared

namespace Statement

mutual

def declared (file : String) : Statement → Option (List Value) → Declared
  | ⟨name, args, options, body, line⟩, carried =>
    if name = "gem" then
      ⟨(args.head?.map fun n => ⟨n, args.tail, options, carried, ⟨file, line⟩⟩).toList, carried⟩
    else if name = "group" then
      match body with
      | none => ⟨[], none⟩
      | some b => ⟨(declaredAll file b (some args)).calls, none⟩
    else if (name = "platform" ∨ name = "platforms") ∧ args = [.str "ruby"] then
      match body with
      | none => .stay carried
      | some b => declaredAll file b carried
    else .stay carried

def declaredAll (file : String) : List Statement → Option (List Value) → Declared
  | [], carried => .stay carried
  | t :: ts, carried => (declared file t carried).andThen (declaredAll file ts)

end

end Statement

/-! ## walks without faults -/

namespace Walk

def Faultless (w : Walk) : Prop := ∀ f, .fault f ∉ w.events

/-- `walk` comes to the gems that `read` lists, and carries the same behind them, unless it comes to a
fault -/
def Declares (walk : Option (List Value) → Walk) (read : Option (List Value) → Declared) : Prop :=
  ∀ carried, (walk carried).Faultless →
    read carried = ⟨(walk carried).events.filterMap Event.call?, (walk carried).carried⟩

lemma Declares.andThen {walk next : Option (List Value) → Walk}
    {read read' : Option (List Value) → Declared} (h : Declares walk read)
    (h' : Declares next read') :
    Declares (fun carried => (walk carried).andThen next)
      fun carried => (read carried).andThen read' := by
  intro carried hfree
  have first : (walk carried).Faultless := fun f hf => hfree f (List.mem_append_left _ hf)
  have behind : (next (walk carried).carried).Faultless :=
    fun f hf => hfree f (List.mem_append_right _ hf)
  show (read carried).andThen read' =
    ⟨((walk carried).events ++ (next (walk carried).carried).events).filterMap Event.call?,
      (next (walk carried).carried).carried⟩
  rw [h carried first, List.filterMap_append]
  unfold Declared.andThen
  dsimp only
  rw [h' _ behind]

end Walk

namespace Statement

section
variable {file : String} {t : Statement} {b : List Statement}

lemma declared_gem (h : t.name = "gem") (carried : Option (List Value)) :
    declared file t carried =
      ⟨(t.args.head?.map fun n => ⟨n, t.args.tail, t.options, carried, ⟨file, t.line⟩⟩).toList,
        carried⟩ := by
  obtain ⟨name, args, options, body, line⟩ := t
  rw [declared.eq_def]
  exact if_pos h

lemma declared_group (h : t.name = "group") (hb : t.body = some b) (carried : Option (List Value)) :
    declared file t carried = ⟨(declaredAll file b (some t.args)).calls, none⟩ := by
  obtain ⟨name, args, options, body, line⟩ := t
  cases h
  cases hb
  rw [declared.eq_def]
  rfl

lemma declared_platform (h : t.name = "platform" ∨ t.name = "platforms") (hb : t.body = some b)
    (carried : Option (List Value)) :
    declared file t carried =
      if t.args = [.str "ruby"] then declaredAll file b carried else .stay carried := by
  obtain ⟨name, args, options, body, line⟩ := t
  cases hb
  rw [declared.eq_def]
  rcases h with h | h <;> cases h <;> simp

lemma declared_other (h : t.name = "ruby" ∨ t.name = "source") (carried : Option (List Value)) :
    declared file t carried = .stay carried := by
  obtain ⟨name, args, options, body, line⟩ := t
  rw [declared.eq_def]
  rcases h with h | h <;> cases h <;> rfl

/-- what a statement asks for comes to the gems that are read of it -/
lemma declares_action {kind : Kind} {a : Action} (hname : kind.name = t.name)
    (ha : Action.of kind t.args t.options t.body.isSome = .ok a)
    (hbody : ∀ b, t.body = some b → Walk.Declares (walkAll file b) (declaredAll file b)) :
    Walk.Declares (a.walk ⟨file, t.line⟩ ((t.body.map (walkAll file)).getD .stay))
      (declared file t) := by
  intro carried hfree
  rcases Action.of_ok ha with ⟨rfl, n, rs, hargs, rfl⟩ | ⟨rfl, hb, rfl⟩ |
    ⟨hkind, hb, what, hargs, rfl⟩ | ⟨rfl, v, rfl⟩ | ⟨rfl, u, rfl⟩
  · rw [declared_gem hname.symm, hargs]
    rfl
  · obtain ⟨b, hb⟩ := Option.isSome_iff_exists.mp hb
    rw [hb] at hfree ⊢
    have inside : (walkAll file b (some t.args)).Faultless :=
      fun f hf => hfree f (List.mem_append_left _ (List.mem_cons_of_mem _ hf))
    rw [declared_group hname.symm hb, hbody b hb _ inside]
    show Declared.mk _ none = ⟨List.filterMap _
      (.enter t.args :: (walkAll file b (some t.args)).events ++ [.leave]), none⟩
    rw [List.filterMap_append, List.filterMap_cons_none rfl]
    exact congrArg (Declared.mk · none) (List.append_nil _).symm
  · obtain ⟨b, hb⟩ := Option.isSome_iff_exists.mp hb
    have hplatform : t.name = "platform" ∨ t.name = "platforms" := by
      rcases hkind with rfl | rfl
      · exact .inl hname.symm
      · exact .inr hname.symm
    rw [hb] at hfree ⊢
    rw [declared_platform hplatform hb, hargs]
    unfold Action.walk at hfree ⊢
    dsimp only at hfree ⊢
    by_cases hw : what = .str nativePlatform
    · have hargs : [what] = [.str "ruby"] := congrArg ([·]) hw
      rw [if_pos hw] at hfree ⊢
      rw [if_pos hargs]
      exact hbody b hb carried hfree
    · have hargs : [what] ≠ [.str "ruby"] := fun e => hw (List.cons.inj e).1
      rw [if_neg hw, if_neg hargs]
      rfl
  · rw [declared_other (.inl hname.symm)]
    rfl
  · rw [declared_other (.inr hname.symm)]
    rfl

lemma walk_declares (t : Statement)
    (hbody : ∀ b, t.body = some b → Walk.Declares (walkAll file b) (declaredAll file b)) :
    Walk.Declares (walk file t) (declared file t) := by
  rw [walk_eq]
  cases hk : Kind.ofName? t.name with
  | none => exact fun carried hfree => absurd List.mem_cons_self (hfree _)
  | some kind =>
    have hblock : (t.body.map (walkAll file)).isSome = t.body.isSome := Option.isSome_map
    refine @Walk.Declares.andThen _ _ .stay (declared file t) ?_ ?_
    · -- a block that is not taken leaves a remark
      intro carried _
      dsimp only
      split <;> rfl
    · rw [hblock]
      cases ha : Action.of kind t.args t.options t.body.isSome with
      | error m => exact fun carried hfree => absurd List.mem_cons_self (hfree _)
      | ok a => exact declares_action (Kind.name_of_ofName? hk) ha hbody

end

theorem walkAll_declares (file : String) (ts : List Statement) :
    Walk.Declares (walkAll file ts) (declaredAll file ts) := by
  induction ts using induct with
  | nil =>
    intro carried _
    rw [declaredAll, walkAll_nil]
    rfl
  | cons t ts block rest =>
    have h := (walk_declares t block).andThen rest
    rw [walkAll_cons]
    intro carried hfree
    rw [declaredAll]
    exact h carried hfree

end Statement

lemma Event.not_mem_of_done {g : Setting} {es : List Event} {s t : State}
    (h : runAll g es s = .done t) (f : Fault) : .fault f ∉ es := by
  induction es generalizing s with
  | nil => exact List.not_mem_nil
  | cons e es ih =>
    obtain ⟨u, h1, h2⟩ := Outcome.andThen_eq_done.mp h
    intro hf
    rcases List.mem_cons.mp hf with rfl | hf
    · cases h1
    · exact ih h2 hf

/-- a run that ends well has come to the gems that its statements declare -/
theorem Event.call?_of_done {g : Setting} {ts : List Statement} {s t : State}
    (h : runAll g (Statement.walkAll g.file ts none).events s = .done t) :
    (Statement.walkAll g.file ts none).events.filterMap call? =
      (Statement.declaredAll g.file ts none).calls := by
  rw [Statement.walkAll_declares g.file ts none (not_mem_of_done h)]

end Gemfile
