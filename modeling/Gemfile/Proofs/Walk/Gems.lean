import Gemfile.Proofs.Walk.Declared
import Gemfile.Proofs.Walk.Run

/-!
# The stores after a run

* `Recorded g cs s t`   the groups and the requests of `t` are those of `s` with the gems `cs` behind
                        them, in order
* `Gathered g cs s t`   that, and nothing went wrong with any of them
* `runAll_gathered`     a run that ends well gathers the gems that its statements declare
* `runAll_recorded`     any run records the first gems of its walk
-/

namespace Gemfile

structure Recorded (g : Setting) (cs : List GemCall) (s t : State) : Prop where
  /-- under a group are the declarations of its gems, behind those that were there -/
  declarations : ∀ n, (Table.get? n t.groups).getD [] = (Table.get? n s.groups).getD [] ++
    (cs.filter fun c => among n c.groups).map GemCall.declaration
  /-- the groups are in the order in which they were first used -/
  groups : Table.keys t.groups =
    Table.keys s.groups ++ distinctFrom (Table.keys s.groups) (cs.flatMap GemCall.groups)
  /-- those gems are requested that have no excluded group -/
  requests : t.requests = s.requests ++
    (cs.filter (·.requested g.without)).filterMap (·.dependency.toOption)

structure Gathered (g : Setting) (cs : List GemCall) (s t : State) : Prop extends
    Recorded g cs s t where
  proper : ∀ c ∈ cs, c.Proper
  requested : ∀ c ∈ cs, c.requested g.without = true → ∃ d, c.dependency = .ok d
  vendored : t.vendored.directories =
    s.vendored.directories.putAll (cs.filterMap GemCall.registration?)

section
variable {g : Setting} {cs ds : List GemCall} {s t u : State}

namespace Recorded

lemma none_of_eq (hg : t.groups = s.groups) (hr : t.requests = s.requests) :
    Recorded g [] s t where
  declarations := fun n => by simp [hg]
  groups := by simp [hg, distinctFrom]
  requests := by simp [hr]

lemma append (h : Recorded g cs s t) (h' : Recorded g ds t u) : Recorded g (cs ++ ds) s u := by
  refine ⟨?_, ?_, ?_⟩
  · intro n
    rw [h'.declarations n, h.declarations n, List.filter_append, List.map_append, List.append_assoc]
  · rw [h'.groups, h.groups, List.flatMap_append, distinctFrom_append, List.append_assoc]
  · rw [h'.requests, h.requests, List.filter_append, List.filterMap_append, List.append_assoc]

lemma one {c : GemCall} (hg : t.groups = c.groups.foldl (fun t k => addTo k c.declaration t) s.groups)
    (hr : t.requests = s.requests ++
      if c.requested g.without then c.dependency.toOption.toList else []) :
    Recorded g [c] s t := by
  refine ⟨?_, ?_, ?_⟩
  · intro n
    rw [hg, get?_foldl_addTo _ n c.groups_separate]
    by_cases hn : among n c.groups = true <;> simp [hn]
  · rw [hg, keys_foldl_addTo]
    simp
  · rw [hr]
    by_cases hc : c.requested g.without = true
    · rw [if_pos hc, List.filter_cons_of_pos hc]
      cases hd : c.dependency <;> simp [hd, Except.toOption]
    · rw [if_neg hc, List.filter_cons_of_neg hc]
      rfl

end Recorded

namespace Gathered

lemma none_of_eq (hg : t.groups = s.groups) (hr : t.requests = s.requests)
    (hv : t.vendored = s.vendored) : Gathered g [] s t where
  toRecorded := .none_of_eq hg hr
  proper := fun c hc => absurd hc (by simp)
  requested := fun c hc => absurd hc (by simp)
  vendored := by simp [hv, Table.putAll]

lemma append (h : Gathered g cs s t) (h' : Gathered g ds t u) : Gathered g (cs ++ ds) s u := by
  refine ⟨h.toRecorded.append h'.toRecorded, ?_, ?_, ?_⟩
  · intro c hc
    rcases List.mem_append.mp hc with hc | hc
    · exact h.proper c hc
    · exact h'.proper c hc
  · intro c hc
    rcases List.mem_append.mp hc with hc | hc
    · exact h.requested c hc
    · exact h'.requested c hc
  · rw [h'.vendored, h.vendored, List.filterMap_append]
    exact (List.foldl_append ..).symm

lemma one {c : GemCall} (hc : c.carried = s.currentGroups)
    (h : s.declare g c.name c.requirements c.options = .done t) : Gathered g [c] s t := by
  obtain ⟨hp, ds, log, hd, rfl⟩ := State.declare_done hc h
  have hds : (c.requested g.without = true → ∃ d, c.dependency = .ok d) ∧
      ds = if c.requested g.without then c.dependency.toOption.toList else [] := by
    rcases GemCall.routed_ok hd with ⟨hr, d, h1, rfl⟩ | ⟨hr, rfl⟩
    · rw [hr, h1]
      exact ⟨fun _ => ⟨d, rfl⟩, rfl⟩
    · rw [hr]
      exact ⟨nofun, rfl⟩
  refine ⟨.one rfl (by rw [hds.2]), ?_, ?_, ?_⟩
  · intro c' h'
    rw [List.mem_singleton.mp h']
    exact hp
  · intro c' h' hr
    rw [List.mem_singleton.mp h'] at hr ⊢
    exact hds.1 hr
  · cases hr : c.registration? <;> simp [hr]

end Gathered

end

namespace Event
variable {g : Setting} {s t : State}

lemma run_gathered {e : Event} (h : e.run g s = .done t) : Gathered g e.call?.toList s t := by
  cases e with
  | gem c =>
    obtain ⟨u, h1, rfl⟩ := Outcome.mapState_eq_done.mp h
    have h2 := Gathered.one rfl (Outcome.mapFault_eq_done.mp h1)
    exact ⟨⟨h2.declarations, h2.groups, h2.requests⟩, h2.proper, h2.requested, h2.vendored⟩
  | ruby version options =>
    obtain ⟨entries, h1⟩ := State.checkRuby_eq g version options s.detected
    obtain ⟨rfl, _⟩ := Outcome.mk.inj ((h1 s rfl).symm.trans h)
    exact .none_of_eq rfl rfl rfl
  | source url =>
    cases h
    exact .none_of_eq rfl rfl rfl
  | remark entry =>
    cases h
    exact .none_of_eq rfl rfl rfl
  | fault f => cases h
  | enter names =>
    cases h
    exact .none_of_eq rfl rfl rfl
  | leave =>
    cases h
    exact .none_of_eq rfl rfl rfl

/-- an event that fails has recorded its gem or nothing -/
lemma run_failed {e : Event} {f : Fault} (h : e.run g s = ⟨t, some f⟩) :
    Recorded g [] s t ∨ Recorded g e.call?.toList s t := by
  cases e with
  | gem c =>
    rcases h1 : State.declare g c.name c.requirements c.options { s with currentGroups := c.carried }
      with ⟨u, f'⟩
    have h2 : run g (.gem c) s = ⟨u.leave, f'.map (Fault.located c.place)⟩ := by
      show ((State.declare g c.name c.requirements c.options _).mapFault _).mapState _ = _
      rw [h1]
      rfl
    rw [h2] at h
    cases f' with
    | none => cases h
    | some f' =>
      cases h
      obtain ⟨hr, hg | ⟨hg, hd⟩⟩ := State.declare_failed rfl h1
      · exact .inl (.none_of_eq hg hr)
      · refine .inr (.one hg ?_)
        show u.requests = s.requests ++ _
        rw [hr]
        by_cases hq : c.requested g.without = true
        · obtain ⟨e, hd⟩ := hd hq
          simp [hq, hd, Except.toOption]
        · simp [hq]
  | ruby version options =>
    obtain ⟨entries, h1⟩ := State.checkRuby_eq g version options s.detected
    obtain ⟨rfl, _⟩ := Outcome.mk.inj ((h1 s rfl).symm.trans h)
    exact .inl (.none_of_eq rfl rfl)
  | source url => cases h
  | remark entry => cases h
  | fault f =>
    cases h
    exact .inl (.none_of_eq rfl rfl)
  | enter names => cases h
  | leave => cases h

lemma runAll_done {es : List Event} (h : runAll g es s = .done t) :
    Gathered g (es.filterMap call?) s t := by
  induction es generalizing s with
  | nil =>
    cases h
    exact .none_of_eq rfl rfl rfl
  | cons e es ih =>
    obtain ⟨u, h1, h2⟩ := Outcome.andThen_eq_done.mp h
    rw [filterMap_call?_cons]
    exact (run_gathered h1).append (ih h2)

lemma runAll_recorded (g : Setting) (es : List Event) (s : State) :
    ∃ cs, cs <+: es.filterMap call? ∧ ((runAll g es s).fault = none → cs = es.filterMap call?) ∧
      Recorded g cs s (runAll g es s).state := by
  induction es generalizing s with
  | nil => exact ⟨[], List.nil_prefix, fun _ => rfl, .none_of_eq rfl rfl⟩
  | cons e es ih =>
    rw [runAll, filterMap_call?_cons]
    rcases h : e.run g s with ⟨t, f⟩
    cases f with
    | some f =>
      have failed : ((Outcome.mk t (some f)).andThen (runAll g es)).fault ≠ none :=
        Option.some_ne_none f
      rcases run_failed h with h1 | h1
      · exact ⟨[], List.nil_prefix, fun h2 => absurd h2 failed, h1⟩
      · exact ⟨_, List.prefix_append _ _, fun h2 => absurd h2 failed, h1⟩
    | none =>
      obtain ⟨cs, hp, hall, h1⟩ := ih t
      refine ⟨e.call?.toList ++ cs, (List.prefix_append_right_inj _).mpr hp, ?_, ?_⟩
      · intro hf
        rw [hall hf]
      · exact (run_gathered h).toRecorded.append h1

end Event

/-- what a run that ends well leaves in the stores is what the gems that its statements declare put there,
in order; it starts outside every group block and ends there -/
theorem runAll_gathered (g : Setting) (ts : List Statement) {s t : State}
    (hs : s.currentGroups = none) (h : Statement.runAll g ts s = .done t) :
    Gathered g (Statement.declaredAll g.file ts none).calls s t ∧ t.currentGroups = none := by
  have effect := (runAll_follows g ts).effect s
  rw [h, hs] at effect
  have h1 := Event.runAll_done effect.symm
  rw [Event.call?_of_done effect.symm] at h1
  refine ⟨⟨⟨h1.declarations, h1.groups, h1.requests⟩, h1.proper, h1.requested, h1.vendored⟩, ?_⟩
  have carried := (runAll_follows g ts).carried s
  rw [h, hs] at carried
  exact (carried rfl).trans (or_self_iff.mp (Statement.walkAll_carried g.file ts none))

/-- a gem that is in groups of both options and of its block, with a directory and an option that is kept;
one for the native platform, one for another platform, and one behind the block -/
theorem runAll_gathered_block :
    let g : Setting := ⟨⟨0, ["gem.deps.rb"]⟩, [.str "test"], some (.native "3.0.0"), .absent⟩
    let a : GemCall := ⟨.str "a", [.str ">= 1"],
      [("group", .list [.str "dev", .str "test"]), ("path", .str "lib/a"), ("groups", .str "doc"),
        ("require", .bool false)], some [.str "test", .str "ci"], ⟨"gem.deps.rb", 2⟩⟩
    let b : GemCall :=
      ⟨.str "b", [], [("group", .nil)], some [.str "test", .str "ci"], ⟨"gem.deps.rb", 4⟩⟩
    let c : GemCall :=
      ⟨.str "c", [], [("groups", .list [.str "ci", .str "dev"]), ("path", .str "c")], none,
        ⟨"gem.deps.rb", 10⟩⟩
    let kept : Declaration := ⟨.str "a", [.str ">= 1"], [("require", .bool false)]⟩
    ∃ t, Gathered g [a, b, c] (.start .standard) t ∧
      t.groups = [(.str "dev", [kept, ⟨.str "c", [], []⟩]),
        (.str "test", [kept, ⟨.str "b", [], []⟩]), (.str "doc", [kept]),
        (.str "ci", [kept, ⟨.str "b", [], []⟩, ⟨.str "c", [], []⟩])] ∧
      t.requests = [⟨.str "c", []⟩] ∧
      t.vendored.directories = [(.str "a", ⟨0, ["lib", "a"]⟩), (.str "c", ⟨0, ["c"]⟩)] := by
  intro g a b c kept
  have h := runAll_gathered g [⟨"group", [.str "test", .str "ci"], [], some
      [⟨"gem", [.str "a", .str ">= 1"], a.options, none, 2⟩,
        ⟨"platform", [.str "ruby"], [], some [⟨"gem", [.str "b"], b.options, none, 4⟩], 3⟩,
        ⟨"platforms", [.str "mswin"], [], some [⟨"gem", [.str "d"], [], none, 7⟩], 6⟩], 1⟩,
      ⟨"gem", [.str "c"], c.options, none, 10⟩] (s := .start .standard) rfl rfl
  exact ⟨_, h.1, by decide +kernel, by decide +kernel, by decide +kernel⟩

end Gemfile
