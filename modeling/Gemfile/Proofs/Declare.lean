import Gemfile.Proofs.Contribution
import Gemfile.Proofs.Options
import Gemfile.Proofs.Table
import Gemfile.Proofs.Walk

/-!
# What a gem statement changes

* `GemCall.own`, `GemCall.names`, `GemCall.groups`   the names that the options of a gem give to its
                          groups; those and the carried ones; the groups themselves
* `GemCall.declaration`, `GemCall.registration?`   what is recorded of it, and where it is vendored
* `GemCall.contribution`  what it adds to the stores: it is registered, then recorded, then requested
* `GemCall.contribution_cases`   it is not recorded, or it is, whatever becomes of its request
* `State.declare_contributes`    a gem statement adds the contribution of its gem
-/

namespace Gemfile

namespace GemCall

def own (c : GemCall) : List Value := c.options.groups

def names (c : GemCall) : List Value := c.own ++ c.carried.getD []

def groups (c : GemCall) : List Scalar := distinct (c.names.filterMap Value.scalar?)

lemma groups_separate (c : GemCall) : Separate c.groups := distinct_separate _

def declaration (c : GemCall) : Declaration :=
  ⟨c.name, c.requirements, c.options.residual⟩

/-- the name and the directory of a gem that is vendored -/
def registration? (c : GemCall) : Option (Scalar × Path) :=
  match c.name, c.options.value? "path" with
  | .scalar n, some (.str p) => some (n, Path.ofText p)
  | _, _ => none

def dependency (c : GemCall) : Except RequirementFault Dependency :=
  Dependency.ofValues c.name c.requirements

def requested (without : List Scalar) (c : GemCall) : Bool :=
  c.groups.all fun k => !among k without

/-- the groups are named by scalars, and a directory is one for a name -/
structure Proper (c : GemCall) : Prop where
  names : ∀ v ∈ c.names, v.scalar?.isSome
  path : (c.options.value? "path").isSome → c.registration?.isSome

end GemCall

lemma namesOf_ok {vs : List Value} {ns : List Scalar} (h : namesOf vs = .ok ns) :
    vs = ns.map Value.scalar := by
  induction vs generalizing ns with
  | nil =>
    cases h
    rfl
  | cons v vs ih =>
    rw [namesOf] at h
    cases v with
    | scalar k =>
      cases h1 : namesOf vs with
      | error f =>
        rw [h1] at h
        cases h
      | ok ms =>
        rw [h1] at h
        cases h
        rw [ih h1, List.map_cons]
    | list items => cases h
    | hash entries => cases h

lemma filterMap_scalar? (ns : List Scalar) :
    (ns.map Value.scalar).filterMap Value.scalar? = ns := by
  rw [List.filterMap_map]
  exact List.filterMap_some

namespace GemCall

lemma effectiveGroups_ok {c : GemCall} {gs : List Scalar}
    (h : effectiveGroups c.options c.carried = .ok gs) :
    gs = c.groups ∧ ∀ v ∈ c.names, v.scalar?.isSome := by
  obtain ⟨vs, h1, h⟩ := bind_eq_ok.mp h
  obtain ⟨ns, h2, h⟩ := bind_eq_ok.mp h
  have hn : c.names = ns.map Value.scalar := by
    unfold names own
    rw [← groupOption_append h1]
    exact namesOf_ok h2
  cases h
  constructor
  · unfold groups
    rw [hn, filterMap_scalar?]
  · intro v hv
    rw [hn] at hv
    obtain ⟨k, _, rfl⟩ := List.mem_map.mp hv
    rfl

lemma excludedOf_isEmpty (without : List Scalar) (c : GemCall) :
    (excludedOf without c.groups).isEmpty = c.requested without := by
  unfold excludedOf requested
  rw [Bool.eq_iff_iff, List.isEmpty_iff, List.filter_eq_nil_iff, List.all_eq_true]
  simp

end GemCall

namespace Vendored

lemma pathOf_ok {v : Value} {d : Path} (h : pathOf v = .ok d) :
    ∃ p, v = .str p ∧ d = Path.ofText p := by
  cases v with
  | scalar k =>
    cases k <;> cases h
    exact ⟨_, rfl, rfl⟩
  | list items => cases h
  | hash entries => cases h

lemma nameOf_ok {v : Value} {n : Scalar} (h : nameOf v = .ok n) : v = .scalar n := by
  cases v with
  | scalar k =>
    cases h
    rfl
  | list items => cases h
  | hash entries => cases h

lemma pathOf_error {v : Value} {f : Fault} (h : pathOf v = .error f) : f = .value .notPath := by
  unfold pathOf at h
  split at h
  · cases h
  · cases h
    rfl

lemma nameOf_error {v : Value} {f : Fault} (h : nameOf v = .error f) : f = .value .notScalar := by
  unfold nameOf at h
  split at h
  · cases h
  · cases h
    rfl

lemma entry_error {name directory : Value} {f : Fault} (h : entry name directory = .error f) :
    ∃ v, f = .value v := by
  rcases bind_eq_error.mp h with h | ⟨p, _, h⟩
  · exact ⟨_, pathOf_error h⟩
  · rcases bind_eq_error.mp h with h | ⟨n, _, h⟩
    · exact ⟨_, nameOf_error h⟩
    · cases h

end Vendored

lemma namesOf_error {vs : List Value} {f : Fault} (h : namesOf vs = .error f) :
    ∃ v, f = .value v := by
  induction vs with
  | nil => cases h
  | cons v vs ih =>
    rcases bind_eq_error.mp h with h | ⟨n, _, h⟩
    · exact ⟨_, Vendored.nameOf_error h⟩
    · rcases bind_eq_error.mp h with h | ⟨ns, _, h⟩
      · exact ih h
      · cases h

lemma groupsOption_error {options : Options} {f : Fault} (h : groupsOption options = .error f) :
    f = .value .notElements := by
  unfold groupsOption at h
  split at h
  · cases h
  · cases h
  · split at h
    · cases h
    · cases h
      rfl

lemma effectiveGroups_error {options : Options} {carried : Option (List Value)} {f : Fault}
    (h : effectiveGroups options carried = .error f) : ∃ v, f = .value v := by
  rcases bind_eq_error.mp h with h | ⟨vs, _, h⟩
  · exact ⟨_, groupsOption_error h⟩
  · rcases bind_eq_error.mp h with h | ⟨ns, _, h⟩
    · exact namesOf_error h
    · cases h

namespace GemCall

/-- the directory that is registered for a gem -/
def registering (c : GemCall) : Except Fault (Table Scalar Path) :=
  match c.options.value? "path" with
  | none => .ok []
  | some directory => (Vendored.entry c.name directory).map ([·])

/-- the request of a gem that is in some groups -/
def routed (without groups : List Scalar) (c : GemCall) : Except Fault (List Dependency) :=
  if (excludedOf without groups).isEmpty then
    match c.dependency with
    | .error f => .error (.requirement f none)
    | .ok d => .ok [d]
  else
    match sortedTexts? (excludedOf without groups) with
    | none => .error (.value .notText)
    | some _ => .ok []

/-- a gem is registered, then recorded, then requested -/
def contribution (without : List Scalar) (c : GemCall) (m : Interpreter.Memory) : Contribution :=
  match c.registering with
  | .error f => { detected := m, fault := some f }
  | .ok es =>
    match effectiveGroups c.options c.carried with
    | .error f => { registered := es, detected := m, fault := some f }
    | .ok gs =>
      let recorded := gs.map fun n => (n, c.declaration)
      match c.routed without gs with
      | .error f => { registered := es, recorded := recorded, detected := m, fault := some f }
      | .ok ds => { registered := es, recorded := recorded, requests := ds, detected := m }

lemma registering_ok {c : GemCall} {es : Table Scalar Path} (h : c.registering = .ok es) :
    es = c.registration?.toList ∧
      ((c.options.value? "path").isSome → c.registration?.isSome) := by
  unfold registering at h
  unfold registration?
  cases hp : c.options.value? "path" with
  | none =>
    rw [hp] at h
    cases h
    refine ⟨?_, fun h => absurd h (by simp)⟩
    cases c.name <;> rfl
  | some p =>
    rw [hp] at h
    obtain ⟨e, h1, rfl⟩ := map_eq_ok.mp h
    obtain ⟨d, h2, h1⟩ := bind_eq_ok.mp h1
    obtain ⟨n, h3, h1⟩ := bind_eq_ok.mp h1
    obtain ⟨p, rfl, rfl⟩ := Vendored.pathOf_ok h2
    rw [Vendored.nameOf_ok h3]
    cases h1
    exact ⟨rfl, fun _ => rfl⟩

lemma registering_error {c : GemCall} {f : Fault} (h : c.registering = .error f) :
    ∃ v, f = .value v := by
  unfold registering at h
  split at h
  · cases h
  · exact Vendored.entry_error (map_eq_error.mp h)

/-- what a gem adds to the groups -/
def filed (c : GemCall) : List (Scalar × Declaration) := c.groups.map fun n => (n, c.declaration)

/-- a gem without proper groups or a proper path is not recorded; any other one is, whatever becomes
of its request -/
theorem contribution_cases (c : GemCall) :
    (∃ es v, ∀ without m, c.contribution without m =
      { registered := es, detected := m, fault := some (.value v) }) ∨
    c.Proper ∧ ∀ without m, c.contribution without m =
      match c.routed without c.groups with
      | .error f =>
        { registered := c.registration?.toList, recorded := c.filed, detected := m, fault := some f }
      | .ok ds =>
        { registered := c.registration?.toList, recorded := c.filed, requests := ds,
          detected := m } := by
  unfold contribution
  cases hr : c.registering with
  | error f =>
    obtain ⟨v, rfl⟩ := registering_error hr
    exact .inl ⟨[], v, fun _ _ => rfl⟩
  | ok es =>
    obtain ⟨rfl, hp⟩ := registering_ok hr
    cases hg : effectiveGroups c.options c.carried with
    | error f =>
      obtain ⟨v, rfl⟩ := effectiveGroups_error hg
      exact .inl ⟨_, v, fun _ _ => rfl⟩
    | ok gs =>
      obtain ⟨rfl, hn⟩ := effectiveGroups_ok hg
      exact .inr ⟨⟨hn, hp⟩, fun _ _ => rfl⟩

/-- what is remembered makes no difference to a gem -/
lemma contribution_memory (without : List Scalar) (c : GemCall) (m m' : Interpreter.Memory) :
    c.contribution without m' = { c.contribution without m with detected := m' } := by
  rcases c.contribution_cases with ⟨es, v, hk⟩ | ⟨_, hk⟩
  · rw [hk, hk]
  · rw [hk, hk]
    cases c.routed without c.groups <;> rfl

lemma routed_ok {without : List Scalar} {c : GemCall} {ds : List Dependency}
    (h : c.routed without c.groups = .ok ds) :
    c.requested without = true ∧ (∃ d, c.dependency = .ok d ∧ ds = [d]) ∨
      c.requested without = false ∧ ds = [] := by
  unfold routed at h
  rw [excludedOf_isEmpty] at h
  by_cases hq : c.requested without = true
  · rw [if_pos hq] at h
    cases hd : c.dependency with
    | error r =>
      rw [hd] at h
      cases h
    | ok d =>
      rw [hd] at h
      cases h
      exact .inl ⟨hq, d, rfl, rfl⟩
  · rw [if_neg hq] at h
    split at h
    · cases h
    · cases h
      exact .inr ⟨Bool.not_eq_true _ ▸ hq, rfl⟩

lemma routed_error {without : List Scalar} {c : GemCall} {f : Fault}
    (h : c.routed without c.groups = .error f) :
    c.requested without = true ∧ (∃ r, c.dependency = .error r ∧ f = .requirement r none) ∨
      c.requested without = false ∧ ∃ v, f = .value v := by
  unfold routed at h
  rw [excludedOf_isEmpty] at h
  by_cases hq : c.requested without = true
  · rw [if_pos hq] at h
    cases hd : c.dependency with
    | error r =>
      rw [hd] at h
      cases h
      exact .inl ⟨hq, r, rfl, rfl⟩
    | ok d =>
      rw [hd] at h
      cases h
  · rw [if_neg hq] at h
    split at h
    · cases h
      exact .inr ⟨Bool.not_eq_true _ ▸ hq, _, rfl⟩
    · cases h

end GemCall

namespace State

lemma vendor_eq (c : GemCall) (s : State) :
    ∃ log, s.vendor c.name c.options = c.registering.map fun es =>
      { s with vendored := ⟨s.vendored.directories.putAll es⟩, log := log } := by
  unfold vendor GemCall.registering
  rw [given_eq]
  cases c.options.value? "path" with
  | none => exact ⟨s.log, rfl⟩
  | some directory =>
    dsimp only [Vendored.add]
    cases Vendored.entry c.name directory with
    | error f => exact ⟨[], rfl⟩
    | ok e => exact ⟨_, rfl⟩

lemma route_eq (without groups : List Scalar) (c : GemCall) (s : State) :
    ∃ log, s.route c.name c.requirements (excludedOf without groups) =
      (c.routed without groups).map fun ds =>
        { s with requests := s.requests ++ ds, log := log } := by
  unfold route GemCall.routed request skip
  by_cases he : (excludedOf without groups).isEmpty = true
  · rw [if_pos he, if_pos he]
    show ∃ log, Except.map _ (match c.dependency with
      | .error f => _
      | .ok d => _) = _
    cases c.dependency with
    | error f => exact ⟨[], rfl⟩
    | ok d => exact ⟨_, rfl⟩
  · rw [if_neg he, if_neg he]
    cases sortedTexts? (excludedOf without groups) with
    | none => exact ⟨[], rfl⟩
    | some texts =>
      simp only [Except.map, List.append_nil]
      exact ⟨_, rfl⟩

theorem declare_contributes (g : Setting) {c : GemCall} {s : State}
    (hc : c.carried = s.currentGroups) :
    Contributes (c.contribution g.without s.detected) s
      (s.declare g c.name c.requirements c.options) := by
  obtain ⟨log, hv⟩ := vendor_eq c s
  unfold declare GemCall.contribution
  rw [hv]
  cases c.registering with
  | error f =>
    refine ⟨s.log, ?_⟩
    rw [Contribution.applied_empty]
    rfl
  | ok es =>
    show Contributes _ s (place g c.name c.requirements c.options
      { s with vendored := ⟨s.vendored.directories.putAll es⟩, log := log })
    unfold place
    rw [hc]
    cases effectiveGroups c.options s.currentGroups with
    | error f =>
      refine ⟨log, ?_⟩
      simp [Contribution.applied, Contribution.named, Outcome.failed]
    | ok gs =>
      dsimp only
      obtain ⟨log', hr⟩ := route_eq g.without gs c
        (State.record { s with vendored := ⟨s.vendored.directories.putAll es⟩, log := log } gs
          c.declaration)
      have hd : (⟨c.name, c.requirements, recordedOptions c.options⟩ : Declaration) =
          c.declaration := by
        rw [recordedOptions_eq]
        rfl
      rw [hd, hr]
      cases c.routed g.without gs with
      | error f =>
        refine ⟨log, ?_⟩
        simp [Contribution.applied, Contribution.named, Outcome.failed, Outcome.ofExcept, Except.map,
          record, List.foldl_map]
      | ok ds =>
        refine ⟨log', ?_⟩
        simp [Contribution.applied, Contribution.named, Outcome.done, Outcome.ofExcept, Except.map,
          record, List.foldl_map]

lemma declare_done {g : Setting} {c : GemCall} {s t : State} (hc : c.carried = s.currentGroups)
    (h : s.declare g c.name c.requirements c.options = .done t) :
    c.Proper ∧ ∃ ds log, c.routed g.without c.groups = .ok ds ∧
      t = { s with
        vendored := ⟨s.vendored.directories.putAll c.registration?.toList⟩
        groups := c.groups.foldl (fun t k => addTo k c.declaration t) s.groups
        requests := s.requests ++ ds
        log := log } := by
  obtain ⟨log, h1⟩ := declare_contributes g hc
  rw [h1] at h
  obtain ⟨rfl, hf⟩ := Outcome.mk.inj h
  rcases c.contribution_cases with ⟨es, v, hk⟩ | ⟨hp, hk⟩
  · rw [hk] at hf
    cases hf
  · cases hr : c.routed g.without c.groups with
    | error f =>
      rw [hk, hr] at hf
      cases hf
    | ok ds =>
      refine ⟨hp, ds, log, rfl, ?_⟩
      rw [hk, hr]
      simp [Contribution.applied, Contribution.named, GemCall.filed, List.foldl_map]

/-- a gem statement that fails, before its declaration is recorded or behind that -/
lemma declare_failed {g : Setting} {c : GemCall} {s t : State} {f : Fault}
    (hc : c.carried = s.currentGroups)
    (h : s.declare g c.name c.requirements c.options = ⟨t, some f⟩) :
    t.requests = s.requests ∧ (t.groups = s.groups ∨
      t.groups = c.groups.foldl (fun t k => addTo k c.declaration t) s.groups ∧
        (c.requested g.without = true → ∃ e, c.dependency = .error e)) := by
  obtain ⟨log, h1⟩ := declare_contributes g hc
  rw [h1] at h
  obtain ⟨rfl, hf⟩ := Outcome.mk.inj h
  rcases c.contribution_cases with ⟨es, v, hk⟩ | ⟨_, hk⟩
  · rw [hk]
    exact ⟨List.append_nil _, .inl rfl⟩
  · cases hr : c.routed g.without c.groups with
    | ok ds =>
      rw [hk, hr] at hf
      cases hf
    | error f' =>
      rw [hk, hr]
      refine ⟨List.append_nil _, .inr ⟨List.foldl_map, fun hq => ?_⟩⟩
      rcases GemCall.routed_error hr with ⟨_, r, hd, _⟩ | ⟨hn, _⟩
      · exact ⟨r, hd⟩
      · rw [hq] at hn
        cases hn

end State

/-! ## declarations filed under groups -/

section
variable (d : Declaration)

lemma get?_addTo (n k : Scalar) (t : Table Scalar (List Declaration)) :
    (Table.get? n (addTo k d t)).getD [] =
      (Table.get? n t).getD [] ++ if sameKey n k then [d] else [] := by
  unfold addTo
  rw [Table.get?_put]
  by_cases h : sameKey n k = true
  · rw [if_pos h, if_pos h, Table.get?_congr h]
    rfl
  · rw [if_neg h, if_neg h, List.append_nil]

lemma get?_foldl_addTo (n : Scalar) {ks : List Scalar} (h : Separate ks)
    (t : Table Scalar (List Declaration)) :
    (Table.get? n (ks.foldl (fun t k => addTo k d t) t)).getD [] =
      (Table.get? n t).getD [] ++ if among n ks then [d] else [] := by
  induction ks generalizing t with
  | nil => simp [among]
  | cons k ks ih =>
    obtain ⟨h1, h2⟩ := List.pairwise_cons.mp h
    rw [List.foldl_cons, ih h2, get?_addTo, among_cons, List.append_assoc]
    by_cases hk : sameKey n k = true
    · -- no later name has the key of `n`, since none has that of `k`
      have h3 : among n ks = false := by
        rw [← Bool.not_eq_true, among_iff]
        rintro ⟨l, hl, h4⟩
        rw [sameKey_congr hk, h1 l hl] at h4
        cases h4
      simp [hk, h3]
    · simp [hk]

lemma keys_foldl_addTo (ks : List Scalar) (t : Table Scalar (List Declaration)) :
    Table.keys (ks.foldl (fun t k => addTo k d t) t) =
      Table.keys t ++ distinctFrom (Table.keys t) ks := by
  induction ks generalizing t with
  | nil => simp [distinctFrom]
  | cons k ks ih =>
    have h := distinctFrom_append (Table.keys t) [k] ks
    rw [List.foldl_cons, ih, addTo, Table.keys_put, List.append_assoc, ← h]
    rfl

end

end Gemfile
