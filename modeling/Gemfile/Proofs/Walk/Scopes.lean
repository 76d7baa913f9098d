import Gemfile.Proofs.Walk.Gems

/-!
# The group blocks that a gem stands in

* `Scope`        a group block, and whether another one has ended in it
* `NestedGem`    a gem with its group blocks, the innermost first
* `inForce`      the names of the innermost block, if none has ended in it
* `nestedGems_carried`   these are the names carried to a gem, and no others
* `runAll_nested`        so these and its own are the groups that a gem is recorded under
-/

namespace Gemfile

structure Scope where
  names : List Value
  whole : Bool

def Scope.broken (b : Scope) : Scope := { b with whole := false }

structure NestedGem where
  call : GemCall
  scopes : List Scope

/-- the blocks behind an event; the end of a block is one in every block around it -/
def Event.after : Event → List Scope → List Scope
  | .enter names, bs => ⟨names, true⟩ :: bs
  | .leave, bs => bs.tail.map Scope.broken
  | _, bs => bs

def scopesAfter : List Event → List Scope → List Scope
  | [], bs => bs
  | e :: es, bs => scopesAfter es (e.after bs)

def nested : List Event → List Scope → List NestedGem
  | [], _ => []
  | e :: es, bs => (e.call?.toList.map fun c => ⟨c, bs⟩) ++ nested es (e.after bs)

/-- the gems that statements reach, in order, each with the group blocks that it stands in -/
def Statement.nestedGems (file : String) (ts : List Statement) : List NestedGem :=
  nested (walkAll file ts none).events []

def inForce : List Scope → Option (List Value)
  | ⟨names, true⟩ :: _ => some names
  | _ => none

lemma inForce_broken (bs : List Scope) : inForce (bs.map Scope.broken) = none := by
  cases bs <;> rfl

lemma broken_broken (bs : List Scope) :
    (bs.map Scope.broken).map Scope.broken = bs.map Scope.broken := by
  rw [List.map_map]
  rfl

lemma scopesAfter_append (es fs : List Event) (bs : List Scope) :
    scopesAfter (es ++ fs) bs = scopesAfter fs (scopesAfter es bs) := by
  induction es generalizing bs with
  | nil => rfl
  | cons e es ih => exact ih _

lemma nested_append (es fs : List Event) (bs : List Scope) :
    nested (es ++ fs) bs = nested es bs ++ nested fs (scopesAfter es bs) := by
  induction es generalizing bs with
  | nil => rfl
  | cons e es ih =>
    rw [List.cons_append, nested, nested, ih, List.append_assoc]
    rfl

lemma nested_calls (es : List Event) (bs : List Scope) :
    (nested es bs).map NestedGem.call = es.filterMap Event.call? := by
  induction es generalizing bs with
  | nil => rfl
  | cons e es ih =>
    rw [nested, List.map_append, ih, Event.filterMap_call?_cons]
    cases e.call? <;> rfl

/-- a walk from some blocks carries their names in force to each gem, keeps the blocks, and breaks
them if it does not keep what it carries -/
structure Scopes (walk : Option (List Value) → Walk) (bs : List Scope) : Prop where
  gems : ∀ c ∈ nested (walk (inForce bs)).events bs, c.call.carried = inForce c.scopes
  blocks : scopesAfter (walk (inForce bs)).events bs = bs ∨
    scopesAfter (walk (inForce bs)).events bs = bs.map Scope.broken
  carried : (walk (inForce bs)).carried = inForce (scopesAfter (walk (inForce bs)).events bs)

namespace Scopes
variable {w w' : Option (List Value) → Walk} {bs : List Scope}

lemma stay (bs : List Scope) : Scopes .stay bs :=
  ⟨fun c hc => absurd hc (by simp [Walk.stay, nested]), .inl rfl, rfl⟩

lemma gem (name : Value) (requirements : List Value) (options : Options) (place : Place)
    (bs : List Scope) :
    Scopes (fun carried => .one (.gem ⟨name, requirements, options, carried, place⟩) carried) bs := by
  refine ⟨fun c hc => ?_, .inl rfl, rfl⟩
  rw [List.mem_singleton.mp hc]

lemma plain {e : Event} (he : e.plain = true) (bs : List Scope) : Scopes (.one e) bs := by
  have hc : e.call? = none ∧ e.after bs = bs := by
    cases e <;> first | exact ⟨rfl, rfl⟩ | cases he
  refine ⟨fun c hm => ?_, .inl hc.2, ?_⟩
  · simp [Walk.one, nested, hc.1] at hm
  · show inForce bs = inForce (e.after bs)
    rw [hc.2]

/-- the second walk starts from the blocks that the first one leaves -/
lemma andThen (h : Scopes w bs) (h' : Scopes w' (scopesAfter (w (inForce bs)).events bs)) :
    Scopes (fun carried => (w carried).andThen w') bs := by
  have he : ((w (inForce bs)).andThen w').events = (w (inForce bs)).events ++
      (w' (inForce (scopesAfter (w (inForce bs)).events bs))).events := by
    rw [← h.carried]
    rfl
  have hc : ((w (inForce bs)).andThen w').carried =
      (w' (inForce (scopesAfter (w (inForce bs)).events bs))).carried := by
    rw [← h.carried]
    rfl
  refine ⟨?_, ?_, ?_⟩
  · intro c hm
    rw [he, nested_append] at hm
    rcases List.mem_append.mp hm with hm | hm
    · exact h.gems c hm
    · exact h'.gems c hm
  · rw [he, scopesAfter_append]
    rcases h'.blocks with hb | hb
    · rw [hb]
      exact h.blocks
    · rw [hb]
      rcases h.blocks with hb' | hb'
      · rw [hb']
        exact .inr rfl
      · rw [hb', broken_broken]
        exact .inr rfl
  · rw [he, hc, scopesAfter_append]
    exact h'.carried

/-- the body of a block keeps it on top of those around it, whole or broken -/
lemma group {names : List Value} (h : Scopes w (⟨names, true⟩ :: bs)) :
    Scopes (.group names w) bs := by
  have hb : scopesAfter (Walk.group names w (inForce bs)).events bs = bs.map Scope.broken := by
    show scopesAfter ((w (some names)).events ++ [.leave]) (⟨names, true⟩ :: bs) = _
    rw [scopesAfter_append,
      show (w (some names)).events = (w (inForce (⟨names, true⟩ :: bs))).events from rfl]
    rcases h.blocks with hb | hb
    · rw [hb]
      rfl
    · rw [hb]
      exact broken_broken bs
  refine ⟨?_, .inr hb, ?_⟩
  · intro c hm
    have hm' : c ∈ nested ((w (some names)).events ++ [.leave]) (⟨names, true⟩ :: bs) := hm
    rw [nested_append] at hm'
    rcases List.mem_append.mp hm' with hm' | hm'
    · exact h.gems c hm'
    · exact nomatch hm'
  · rw [hb, inForce_broken]
    rfl

end Scopes

lemma walkAll_scopes (file : String) (ts : List Statement) (bs : List Scope) :
    Scopes (Statement.walkAll file ts) bs := by
  have closed : Walk.Closed fun w => ∀ bs, Scopes w bs := by
    constructor
    · exact Scopes.stay
    · exact Scopes.gem
    · exact fun _ he bs => Scopes.plain he bs
    · exact fun _ _ h h' bs => (h bs).andThen (h' _)
    · exact fun _ _ h _ => Scopes.group (h _)
  exact closed.walkAll file ts bs

/-- a gem is carried the names of its innermost block if no group block has ended in that, and
nothing else; those of the blocks further out never reach it -/
theorem nestedGems_carried (file : String) (ts : List Statement) :
    ∀ c ∈ Statement.nestedGems file ts, c.call.carried = inForce c.scopes :=
  (walkAll_scopes file ts []).gems

namespace NestedGem

/-- the groups that count: those of the gem's own options, and those in force where it stands -/
def under (c : NestedGem) (n : Scalar) : Bool :=
  among n ((c.call.own ++ (inForce c.scopes).getD []).filterMap Value.scalar?)

lemma among_groups {c : NestedGem} (h : c.call.carried = inForce c.scopes) (n : Scalar) :
    among n c.call.groups = c.under n := by
  unfold GemCall.groups GemCall.names under
  rw [among_distinct, h]

lemma requested_eq {c : NestedGem} (h : c.call.carried = inForce c.scopes)
    (without : List Scalar) : c.call.requested without = !without.any c.under := by
  unfold GemCall.requested
  rw [all_not_among, funext (among_groups h)]

end NestedGem

/-- wherever a run ends, its first gems have been recorded, and all if it ends well.  Each is under
the groups that its own options name and those in force where it stands, and under no other; it is
requested if none of these is excluded. -/
theorem runAll_nested (g : Setting) (ts : List Statement) {s : State}
    (hs : s.currentGroups = none) :
    ∃ cs, cs <+: Statement.nestedGems g.file ts ∧
      ((Statement.runAll g ts s).fault = none → cs = Statement.nestedGems g.file ts) ∧
      (∀ n, (Table.get? n (Statement.runAll g ts s).state.groups).getD [] =
        (Table.get? n s.groups).getD [] ++ (cs.filter (·.under n)).map (·.call.declaration)) ∧
      (Statement.runAll g ts s).state.requests = s.requests ++
        (cs.filter fun c => !g.without.any c.under).filterMap (·.call.dependency.toOption) := by
  have effect := (runAll_follows g ts).effect s
  rw [hs] at effect
  obtain ⟨ds, hp, hall, h⟩ :=
    Event.runAll_recorded g (Statement.walkAll g.file ts none).events s.leave
  rw [← nested_calls _ []] at hp hall
  rw [← effect] at h hall
  -- the recorded gems are those at the front of the nested ones
  obtain ⟨cs, hcs, rfl⟩ : ∃ cs, cs <+: Statement.nestedGems g.file ts ∧ cs.map NestedGem.call = ds := by
    refine ⟨(Statement.nestedGems g.file ts).take ds.length, List.take_prefix _ _, ?_⟩
    rw [List.map_take]
    exact (List.prefix_iff_eq_take.mp hp).symm
  have carried : ∀ c ∈ cs, c.call.carried = inForce c.scopes :=
    fun c hc => nestedGems_carried g.file ts c (hcs.subset hc)
  refine ⟨cs, hcs, ?_, ?_, ?_⟩
  · intro hf
    refine hcs.eq_of_length ?_
    have h1 := congrArg List.length (hall hf)
    rw [List.length_map, List.length_map] at h1
    exact h1
  · intro n
    have h1 := h.declarations n
    have h2 : ∀ c ∈ cs, among n c.call.groups = c.under n :=
      fun c hc => NestedGem.among_groups (carried c hc) n
    rw [List.filter_map, List.map_map] at h1
    rw [← List.filter_congr h2]
    exact h1
  · have h1 := h.requests
    have h2 : ∀ c ∈ cs, c.call.requested g.without = !g.without.any c.under :=
      fun c hc => NestedGem.requested_eq (carried c hc) g.without
    rw [List.filter_map, List.filterMap_map] at h1
    rw [← List.filter_congr h2]
    exact h1

/-- in a block inside another one only the inner names are in force: the gem is not under `a`, and
is requested though `a` is excluded -/
theorem runAll_nested_inner :
    let o := Statement.runAll ⟨⟨0, ["gem.deps.rb"]⟩, [.str "a"], none, .absent⟩
      [⟨"group", [.str "a"], [], some [⟨"group", [.str "b"], [],
        some [⟨"gem", [.str "y"], [], none, 3⟩], 2⟩], 1⟩] (.start .standard)
    (Table.get? (.str "a") o.state.groups).getD [] = [] ∧
      (Table.get? (.str "b") o.state.groups).getD [] = [⟨.str "y", [], []⟩] ∧
      o.state.requests = [⟨.str "y", []⟩] := by
  obtain ⟨cs, _, hall, hd, hr⟩ :=
    runAll_nested ⟨⟨0, ["gem.deps.rb"]⟩, [.str "a"], none, .absent⟩
      [⟨"group", [.str "a"], [], some [⟨"group", [.str "b"], [],
        some [⟨"gem", [.str "y"], [], none, 3⟩], 2⟩], 1⟩] (s := .start .standard) rfl
  have h := hall rfl
  subst h
  exact ⟨hd (.str "a"), hd (.str "b"), hr⟩

/-- a gem that stands in the block of `a` behind the end of an inner block is not under `a` any more,
and is requested though `a` is excluded -/
theorem not_under_behind_inner :
    let g : Setting := ⟨⟨0, ["gem.deps.rb"]⟩, [.str "a"], none, .absent⟩
    let ts : List Statement := [⟨"group", [.str "a"], [],
      some [⟨"group", [.str "b"], [], some [], 2⟩, ⟨"gem", [.str "x"], [], none, 4⟩], 1⟩]
    Statement.nestedGems g.file ts =
        [⟨⟨.str "x", [], [], none, ⟨"gem.deps.rb", 4⟩⟩, [⟨[.str "a"], false⟩]⟩] ∧
      (Statement.runAll g ts (.start .standard)).fault = none ∧
      (Statement.runAll g ts (.start .standard)).state.groups = [] ∧
      (Statement.runAll g ts (.start .standard)).state.requests = [⟨.str "x", []⟩] :=
  ⟨rfl, rfl, rfl, rfl⟩

end Gemfile
