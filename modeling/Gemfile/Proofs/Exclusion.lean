import Gemfile.Proofs.Walk.Contribution

/-!
# Excluding more groups

* `Setting.excluding w g`   the setting `g` with the groups excluded that the texts `w` name
* `Requests without cs rs`  `rs` are the gems among `cs` that have no excluded group, each with its
                            request
* `Excludes w w' cs rs k k'`   `k` makes the requests `rs` of the gems `cs`, and `k'` only those that
                            remain, and else the same
* `GemCall.contribution_excluding`   a gem that goes through with `w` excluded does so with `w'`
* `Event.contributions_excluding`    so do events in order
* `runAll_excluding`        so does a run of statements
-/

namespace Gemfile

def Setting.excluding (w : List String) (g : Setting) : Setting := { g with without := w.map .str }

/-- the gems among `cs` that have no excluded group are those of `rs`, each with its request -/
structure Requests (without : List Scalar) (cs : List GemCall) (rs : List (GemCall × Dependency)) :
    Prop where
  gems : rs.map Prod.fst = cs.filter fun c => c.requested without
  requested : ∀ r ∈ rs, r.1.dependency = .ok r.2

/-- the requests of those gems that have no excluded group -/
def remaining (without : List Scalar) (rs : List (GemCall × Dependency)) : List Dependency :=
  (rs.filter fun r => r.1.requested without).map Prod.snd

lemma Requests.append {without : List Scalar} {cs ds : List GemCall}
    {rs qs : List (GemCall × Dependency)} (h : Requests without cs rs) (h' : Requests without ds qs) :
    Requests without (cs ++ ds) (rs ++ qs) where
  gems := by rw [List.map_append, h.gems, h'.gems, List.filter_append]
  requested := by
    intro r hr
    rcases List.mem_append.mp hr with hr | hr
    · exact h.requested r hr
    · exact h'.requested r hr

lemma remaining_append (without : List Scalar) (rs qs : List (GemCall × Dependency)) :
    remaining without (rs ++ qs) = remaining without rs ++ remaining without qs := by
  unfold remaining
  rw [List.filter_append, List.map_append]

lemma remaining_singleton (without : List Scalar) (c : GemCall) (d : Dependency) :
    remaining without [(c, d)] = if c.requested without then [d] else [] := by
  unfold remaining
  by_cases h : c.requested without = true <;> simp [h]

/-! ## groups with texts as names -/

lemma among_texts {w : List String} {n : Scalar} :
    among n (w.map Scalar.str) = true ↔ ∃ s ∈ w, n = .str s := by
  rw [among_iff]
  constructor
  · rintro ⟨l, hl, h⟩
    obtain ⟨s, hs, rfl⟩ := List.mem_map.mp hl
    have hk : n.key = .text s := (sameKey_iff n (.str s)).mp h
    refine ⟨s, hs, ?_⟩
    cases n with
    | str s' =>
      cases hk
      rfl
    | float x => cases x <;> cases hk
    | _ => cases hk
  · rintro ⟨s, hs, rfl⟩
    exact ⟨.str s, List.mem_map_of_mem hs, (sameKey_iff _ _).mpr rfl⟩

lemma textsOf?_of_texts {ns : List Scalar} (h : ∀ n ∈ ns, ∃ s, n = .str s) :
    ∃ ss, textsOf? ns = some ss := by
  induction ns with
  | nil => exact ⟨[], rfl⟩
  | cons n ns ih =>
    obtain ⟨⟨s, rfl⟩, h1⟩ := List.forall_mem_cons.mp h
    obtain ⟨ss, h2⟩ := ih h1
    refine ⟨s :: ss, ?_⟩
    rw [textsOf?, h2]
    rfl

lemma sortedTexts?_excludedOf (w : List String) (gs : List Scalar) :
    ∃ ss, sortedTexts? (excludedOf (w.map .str) gs) = some ss := by
  have h : ∀ n ∈ excludedOf (w.map .str) gs, ∃ s, n = .str s := by
    intro n hn
    obtain ⟨s, _, hs⟩ := among_texts.mp (List.mem_filter.mp hn).2
    exact ⟨s, hs⟩
  obtain ⟨ss, h1⟩ := textsOf?_of_texts h
  unfold sortedTexts?
  rw [h1]
  exact ⟨_, rfl⟩

namespace GemCall
variable {w w' : List String}

lemma requested_texts {c : GemCall} :
    c.requested (w.map .str) = true ↔ ∀ s ∈ w, .str s ∉ c.groups := by
  unfold requested
  simp only [List.all_eq_true, Bool.not_eq_true', ← Bool.not_eq_true, among_texts]
  constructor
  · intro h s hs hn
    exact h (.str s) hn ⟨s, hs, rfl⟩
  · rintro h n hn ⟨s, hs, rfl⟩
    exact h s hs hn

lemma requested_mono (hw : w ⊆ w') {c : GemCall} (h : c.requested (w'.map .str) = true) :
    c.requested (w.map .str) = true := by
  rw [requested_texts] at h ⊢
  intro s hs
  exact h s (hw hs)

/-- groups that are texts can be told in the log, so a gem is left out without a fault -/
lemma routed_texts (w : List String) (c : GemCall) :
    c.routed (w.map .str) c.groups =
      if c.requested (w.map .str) then
        match c.dependency with
        | .error f => .error (.requirement f none)
        | .ok d => .ok [d]
      else .ok [] := by
  unfold routed
  rw [excludedOf_isEmpty]
  obtain ⟨ss, h⟩ := sortedTexts?_excludedOf w c.groups
  cases hs : sortedTexts? (excludedOf (w.map .str) c.groups) with
  | none =>
    rw [hs] at h
    cases h
  | some texts => rfl

end GemCall

/-! ## two runs -/

structure Excludes (w w' : List String) (cs : List GemCall) (rs : List (GemCall × Dependency))
    (k k' : Contribution) : Prop where
  gems : Requests (w.map .str) cs rs
  requests : k.requests = rs.map Prod.snd
  rest : k' = { k with requests := remaining (w'.map .str) rs }

namespace Excludes
variable {w w' : List String} {cs ds : List GemCall} {rs qs : List (GemCall × Dependency)}
  {k k' : Contribution}

lemma of_requests (h : k.requests = []) : Excludes w w' [] [] k k where
  gems := ⟨rfl, nofun⟩
  requests := h
  rest := by
    show k = { k with requests := [] }
    rw [← h]

lemma located (h : Excludes w w' cs rs k k') (place : Place) :
    Excludes w w' cs rs (k.located place) (k'.located place) := by
  refine ⟨h.gems, h.requests, ?_⟩
  rw [h.rest]
  rfl

lemma andThen {next next' : Interpreter.Memory → Contribution} (h : Excludes w w' cs rs k k')
    (hf : k.fault = none) (h' : Excludes w w' ds qs (next k.detected) (next' k.detected)) :
    Excludes w w' (cs ++ ds) (rs ++ qs) (k.andThen next) (k'.andThen next') := by
  obtain ⟨hk, hd⟩ : k'.fault = none ∧ k'.detected = k.detected := by
    rw [h.rest]
    exact ⟨hf, rfl⟩
  rw [Contribution.andThen_of_none hf, Contribution.andThen_of_none hk, hd]
  refine ⟨h.gems.append h'.gems, ?_, ?_⟩
  · show k.requests ++ (next k.detected).requests = _
    rw [h.requests, h'.requests, List.map_append]
  · rw [h.rest, h'.rest, remaining_append]
    rfl

end Excludes

namespace GemCall
variable {w w' : List String}

/-- a gem that goes through with some groups excluded does so with more of them -/
theorem contribution_excluding (hw : w ⊆ w') (c : GemCall) (m : Interpreter.Memory)
    (h : (c.contribution (w.map .str) m).fault = none) :
    ∃ rs, Excludes w w' [c] rs (c.contribution (w.map .str) m) (c.contribution (w'.map .str) m) := by
  rcases c.contribution_cases with ⟨es, v, hk⟩ | ⟨_, hk⟩
  · rw [hk] at h
    cases h
  · rw [hk] at h ⊢
    rw [hk]
    cases hr : c.routed (w.map .str) c.groups with
    | error f =>
      rw [hr] at h
      cases h
    | ok ds =>
      rcases routed_ok hr with ⟨hq, d, hd, rfl⟩ | ⟨hq, rfl⟩
      · refine ⟨[(c, d)], ⟨?_, ?_⟩, rfl, ?_⟩
        · rw [List.filter_cons_of_pos hq]
          rfl
        · intro r hr
          rw [List.mem_singleton.mp hr]
          exact hd
        · rw [routed_texts, hd, remaining_singleton]
          by_cases hq' : c.requested (w'.map .str) = true
          · rw [if_pos hq', if_pos hq']
          · rw [if_neg hq', if_neg hq']
      · -- a gem that is left out with `w` is left out with `w'`, so its request is not looked at
        have hq' : ¬ c.requested (w'.map .str) = true := by
          intro h1
          rw [requested_mono hw h1] at hq
          cases hq
        refine ⟨[], ⟨?_, nofun⟩, rfl, ?_⟩
        · rw [List.filter_cons_of_neg (by simp [hq])]
          rfl
        · rw [routed_texts, if_neg hq']
          rfl

end GemCall

namespace Event
variable {w w' : List String} {g : Setting}

theorem contribution_excluding (hw : w ⊆ w') (e : Event) (m : Interpreter.Memory)
    (h : (e.contribution (g.excluding w) m).fault = none) :
    ∃ rs, Excludes w w' e.call?.toList rs (e.contribution (g.excluding w) m)
      (e.contribution (g.excluding w') m) := by
  cases e with
  | gem c =>
    obtain ⟨rs, h1⟩ := c.contribution_excluding hw m (Option.map_eq_none_iff.mp h)
    exact ⟨rs, h1.located c.place⟩
  | ruby version options =>
    obtain ⟨m', f, h1, _⟩ := g.checked_eq version options m
    exact ⟨[], .of_requests (congrArg Contribution.requests h1)⟩
  | source url => exact ⟨[], .of_requests rfl⟩
  | remark entry => exact ⟨[], .of_requests rfl⟩
  | fault f => cases h
  | enter names => exact ⟨[], .of_requests rfl⟩
  | leave => exact ⟨[], .of_requests rfl⟩

theorem contributions_excluding (hw : w ⊆ w') (es : List Event) (m : Interpreter.Memory)
    (h : (contributions (g.excluding w) es m).fault = none) :
    ∃ rs, Excludes w w' (es.filterMap call?) rs (contributions (g.excluding w) es m)
      (contributions (g.excluding w') es m) := by
  induction es generalizing m with
  | nil => exact ⟨[], .of_requests rfl⟩
  | cons e es ih =>
    rw [contributions] at h
    obtain ⟨h1, h2⟩ := Contribution.andThen_fault h
    obtain ⟨rs, hrs⟩ := e.contribution_excluding hw m h1
    obtain ⟨qs, hqs⟩ := ih _ h2
    rw [filterMap_call?_cons]
    exact ⟨rs ++ qs, hrs.andThen h1 hqs⟩

end Event

theorem Statement.contribution_excluding (g : Setting) {w w' : List String} (hw : w ⊆ w')
    (ts : List Statement) (carried : Option (List Value)) (m : Interpreter.Memory)
    (h : (contribution (g.excluding w) ts carried m).fault = none) :
    ∃ rs, Excludes w w' ((walkAll g.file ts carried).events.filterMap Event.call?) rs
      (contribution (g.excluding w) ts carried m) (contribution (g.excluding w') ts carried m) :=
  Event.contributions_excluding hw _ m h

/-- A run that ends well with some groups excluded does so with more of them excluded as well, and
leaves the same behind but for the log and the requests: each request is that of a gem that the run
reaches, and those of the gems in a group that is excluded then are missing. -/
theorem runAll_excluding (g : Setting) {w w' : List String} (hw : w ⊆ w') (ts : List Statement)
    {s t : State} (h : Statement.runAll (g.excluding w) ts s = .done t) :
    ∃ rs, Requests (w.map .str)
        ((Statement.walkAll g.file ts s.currentGroups).events.filterMap Event.call?) rs ∧
      t.requests = s.requests ++ rs.map Prod.snd ∧
      ∃ log, Statement.runAll (g.excluding w') ts s = .done { t with
        requests := s.requests ++ remaining (w'.map .str) rs, log := log } := by
  obtain ⟨log, h1⟩ := Statement.runAll_contributes (g.excluding w) ts s
  rw [h] at h1
  have hf : (Statement.contribution (g.excluding w) ts s.currentGroups s.detected).fault = none :=
    (congrArg Outcome.fault h1).symm
  obtain ⟨rs, hrs⟩ := Statement.contribution_excluding g hw ts s.currentGroups s.detected hf
  -- the second run has the fault of the first, which is none
  have hf' : (Statement.contribution (g.excluding w') ts s.currentGroups s.detected).fault = none := by
    rw [hrs.rest]
    exact hf
  obtain ⟨log1, hk⟩ := Statement.runAll_of_contribution hf
  obtain ⟨log2, hk'⟩ := Statement.runAll_of_contribution hf'
  rw [h] at hk
  obtain ⟨rfl, _⟩ := Outcome.mk.inj hk
  refine ⟨rs, hrs.gems, ?_, log2, ?_⟩
  · exact congrArg (s.requests ++ ·) hrs.requests
  · rw [hk', hrs.rest]
    rfl

/-- two gems in blocks, one of them in a group that is excluded then -/
theorem runAll_excluding_test :
    let g : Setting := ⟨⟨0, ["gem.deps.rb"]⟩, [], some (.native "3.0.0"), .absent⟩
    let ts : List Statement :=
      [⟨"group", [.str "test"], [], some [⟨"gem", [.str "a"], [], none, 2⟩], 1⟩,
        ⟨"group", [.str "doc"], [], some [⟨"gem", [.str "b"], [], none, 5⟩], 4⟩]
    [] ⊆ ["test"] ∧ ∃ t log, Statement.runAll (g.excluding []) ts (.start .standard) = .done t ∧
      t.requests = [⟨.str "a", []⟩, ⟨.str "b", []⟩] ∧
      Statement.runAll (g.excluding ["test"]) ts (.start .standard) =
        .done { t with requests := [⟨.str "b", []⟩], log := log } := by
  intro g ts
  have hw : [] ⊆ ["test"] := List.nil_subset _
  obtain ⟨rs, _, _, log, h⟩ := runAll_excluding g hw ts (s := .start .standard) rfl
  have hr : [⟨.str "b", []⟩] = remaining [.str "test"] rs :=
    congrArg (fun o => o.state.requests) h
  refine ⟨hw, _, log, rfl, rfl, ?_⟩
  rw [hr]
  exact h

end Gemfile
