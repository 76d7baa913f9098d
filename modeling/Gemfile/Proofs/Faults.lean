import Gemfile.Proofs.Exclusion
import Gemfile.Proofs.Walk.Behind

/-!
# The faults that a file can end with

* `Fault.ofFile`          a fault that is told to the writer of a file
* `GemCall.Fits`          a gem whose options say where it belongs in a way that can be followed
* `GemCall.fault_of_fits`, `GemCall.fault_of_not_fits`   such a gem fails for its requirements only; any
                          other one fails without a message
* `Event.fault_cases`     so do events, if an interpreter is given and the excluded groups are texts
* `load_faults`           so does a whole file: it ends well, or with a fault of its own, or at the first
                          gem that does not fit
-/

namespace Gemfile

def Fault.ofFile : Fault → Bool
  | .spelling _ _ => true
  | .undefinedStatement _ _ => true
  | .misuse _ _ => true
  | .requirement _ _ => true
  | .engineWithoutVersion => true
  | .otherVersion _ _ _ => true
  | .otherEngine _ _ _ => true
  | _ => false

/-- the options that say where a gem belongs: the groups are scalars, in a list, in a hash or in a text,
and a directory is a text for a gem with a scalar as its name -/
structure GemCall.Fits (c : GemCall) : Prop where
  proper : c.Proper
  elements : ∀ v, c.options.value? "groups" = some v → v.elements?.isSome

lemma namesOf_of_scalars {vs : List Value} (h : ∀ v ∈ vs, v.scalar?.isSome) :
    ∃ ns, namesOf vs = .ok ns := by
  induction vs with
  | nil => exact ⟨[], rfl⟩
  | cons v vs ih =>
    obtain ⟨hv, h⟩ := List.forall_mem_cons.mp h
    obtain ⟨ns, hn⟩ := ih h
    cases v with
    | scalar k =>
      refine ⟨k :: ns, ?_⟩
      rw [namesOf, hn]
      rfl
    | list items => cases hv
    | hash entries => cases hv

lemma groupsOption_isOk (options : Options) :
    (∃ vs, groupsOption options = .ok vs) ↔
      ∀ v, options.value? "groups" = some v → v.elements?.isSome := by
  unfold groupsOption
  rw [given_eq]
  cases options.value? "groups" with
  | none => simp
  | some v =>
    cases v with
    | scalar k => cases k <;> simp [Value.elements?]
    | list items => simp [Value.elements?]
    | hash entries => simp [Value.elements?]

namespace GemCall

lemma registering_isOk (c : GemCall) : (∃ es, c.registering = .ok es) ↔
    ((c.options.value? "path").isSome → c.registration?.isSome) := by
  constructor
  · rintro ⟨es, h⟩
    exact (registering_ok h).2
  · intro h
    unfold registering
    unfold registration? at h
    cases hp : c.options.value? "path" with
    | none => exact ⟨[], rfl⟩
    | some p =>
      rw [hp] at h
      split at h
      next n p' hn hp' =>
        cases hp'
        rw [hn]
        exact ⟨_, rfl⟩
      · cases h rfl

lemma effectiveGroups_isOk (c : GemCall) : (∃ gs, effectiveGroups c.options c.carried = .ok gs) ↔
    (∀ v ∈ c.names, v.scalar?.isSome) ∧
      ∀ v, c.options.value? "groups" = some v → v.elements?.isSome := by
  constructor
  · rintro ⟨gs, h⟩
    refine ⟨(effectiveGroups_ok h).2, (groupsOption_isOk c.options).mp ?_⟩
    obtain ⟨vs, h1, _⟩ := bind_eq_ok.mp h
    exact ⟨vs, h1⟩
  · rintro ⟨hn, hg⟩
    obtain ⟨vs, h1⟩ := (groupsOption_isOk c.options).mpr hg
    unfold names own at hn
    rw [← groupOption_append h1] at hn
    obtain ⟨ns, h2⟩ := namesOf_of_scalars hn
    refine ⟨distinct ns, ?_⟩
    unfold effectiveGroups
    rw [h1]
    show (namesOf (groupOption c.options ++ vs ++ c.carried.getD []) >>= _) = _
    rw [h2]
    rfl

lemma fault_of_not_fits {c : GemCall} (h : ¬ c.Fits) (without : List Scalar)
    (m : Interpreter.Memory) : ∃ v, (c.contribution without m).fault = some (.value v) := by
  unfold contribution
  cases hr : c.registering with
  | error f =>
    obtain ⟨v, rfl⟩ := registering_error hr
    exact ⟨v, rfl⟩
  | ok es =>
    cases hg : effectiveGroups c.options c.carried with
    | error f =>
      obtain ⟨v, rfl⟩ := effectiveGroups_error hg
      exact ⟨v, rfl⟩
    | ok gs =>
      have h1 := (registering_isOk c).mp ⟨es, hr⟩
      obtain ⟨h2, h3⟩ := (effectiveGroups_isOk c).mp ⟨gs, hg⟩
      exact absurd ⟨⟨h2, h1⟩, h3⟩ h

lemma fault_of_fits {c : GemCall} (h : c.Fits) {w : List String} {m : Interpreter.Memory} {f : Fault}
    (hf : (c.contribution (w.map .str) m).fault = some f) : ∃ r, f = .requirement r none := by
  obtain ⟨es, hr⟩ := (registering_isOk c).mpr h.proper.path
  obtain ⟨gs, hg⟩ := (effectiveGroups_isOk c).mpr ⟨h.proper.names, h.elements⟩
  obtain ⟨rfl, _⟩ := effectiveGroups_ok hg
  unfold contribution at hf
  rw [hr, hg] at hf
  dsimp only at hf
  rw [routed_texts] at hf
  by_cases hq : c.requested (w.map .str) = true
  · rw [if_pos hq] at hf
    cases hd : c.dependency with
    | error r =>
      rw [hd] at hf
      cases hf
      exact ⟨r, rfl⟩
    | ok d =>
      rw [hd] at hf
      cases hf
  · rw [if_neg hq] at hf
    cases hf

end GemCall

lemma State.interpreterFault?_ofFile {file : String} {i : Interpreter} {version : Value}
    {engine : Option Value} {f : Fault} (h : f ∈ interpreterFault? file i version engine) :
    f.ofFile = true := by
  unfold interpreterFault? at h
  split at h
  · cases h
    rfl
  · split at h
    · cases h
    · split at h
      · cases h
        rfl
      · cases h

lemma Setting.checked_ofFile {g : Setting} {i : Interpreter} (hi : g.interpreter = some i)
    {version : Value} {options : Options} {m : Interpreter.Memory} {f : Fault}
    (hf : (g.checked version options m).fault = some f) : f.ofFile = true := by
  unfold checked asked at hf
  rw [hi] at hf
  by_cases he : options.engineAlone = true
  · simp only [if_pos he] at hf
    cases hf
    rfl
  · simp only [if_neg he] at hf
    exact State.interpreterFault?_ofFile hf

lemma Fault.ofFile_of_ofStatement {f : Fault} (h : f.ofStatement = true) : f.ofFile = true := by
  cases f <;> first | rfl | cases h

section
variable {g : Setting} {w : List String} {i : Interpreter}

namespace Event

lemma run_fault (e : Event) {s : State} (hs : s.currentGroups = none) :
    (e.run g s).fault = (e.contribution g s.detected).fault := by
  obtain ⟨log, h⟩ := e.run_contributes (g := g) hs
  rw [h]

lemma runAll_fault (es : List Event) {s : State} (hs : s.currentGroups = none) :
    (runAll g es s).fault = (contributions g es s.detected).fault := by
  obtain ⟨log, h⟩ := runAll_contributes (g := g) es hs
  rw [h]

/-- a gem that does not fit fails with no message -/
lemma run_of_not_fits {c : GemCall} (h : ¬ c.Fits) {s : State} (hs : s.currentGroups = none) :
    ∃ v, ((Event.gem c).run g s).fault = some (.value v) := by
  obtain ⟨v, hv⟩ := GemCall.fault_of_not_fits h g.without s.detected
  refine ⟨v, ?_⟩
  rw [run_fault _ hs]
  show Option.map (Fault.located c.place) (c.contribution g.without s.detected).fault = _
  rw [hv]
  rfl

/-- an event fails with a fault of the file, unless it is a gem that does not fit -/
theorem fault_cases (hw : g.without = w.map .str) (hi : g.interpreter = some i) {e : Event}
    (he : ∀ f, e = .fault f → f.ofStatement = true) {s : State} (hs : s.currentGroups = none)
    {f : Fault} (hf : (e.run g s).fault = some f) :
    f.ofFile = true ∨ ∃ c v, e = .gem c ∧ ¬ c.Fits ∧ f = .value v := by
  cases e with
  | gem c =>
    by_cases hc : c.Fits
    · rw [run_fault _ hs] at hf
      obtain ⟨f', hf', rfl⟩ := Option.map_eq_some_iff.mp hf
      rw [hw] at hf'
      obtain ⟨r, rfl⟩ := GemCall.fault_of_fits hc hf'
      exact .inl rfl
    · obtain ⟨v, hv⟩ := run_of_not_fits (g := g) hc hs
      rw [hv] at hf
      exact .inr ⟨c, v, rfl, hc, (Option.some.inj hf).symm⟩
  | ruby version options =>
    rw [run_fault _ hs] at hf
    exact .inl (Setting.checked_ofFile hi hf)
  | fault f' =>
    cases hf
    exact .inl (Fault.ofFile_of_ofStatement (he f rfl))
  | source url => cases hf
  | remark entry => cases hf
  | enter names => cases hf
  | leave => cases hf

end Event

/-- A run of statements ends well, or with a fault of the file, or at a gem that does not fit -/
theorem Statement.runAll_fault (hw : g.without = w.map .str) (hi : g.interpreter = some i)
    (ts : List Statement) (s : State) :
    (∀ f, (runAll g ts s).fault = some f → f.ofFile = true ∨ ∃ v, f = .value v) ∧
    ((∃ v, (runAll g ts s).fault = some (.value v)) ↔
      ∃ before c rest, eventsFrom g ts s = before ++ .gem c :: rest ∧
        (Event.runAll g before s.leave).fault = none ∧ ¬ c.Fits) := by
  have hr : (runAll g ts s).fault = (Event.runAll g (eventsFrom g ts s) s.leave).fault := by
    rw [runAll_events]
    rfl
  have hcases : ∀ f, (runAll g ts s).fault = some f → f.ofFile = true ∨
      ∃ before c rest v, eventsFrom g ts s = before ++ .gem c :: rest ∧
        (Event.runAll g before s.leave).fault = none ∧ ¬ c.Fits ∧ f = .value v := by
    intro f hf
    rw [hr] at hf
    obtain ⟨u, hu, ⟨_, h⟩ | ⟨e, rest, f', hes, _, h⟩⟩ :=
      Event.runAll_performed g (eventsFrom g ts s) s.leave
    · rw [h] at hf
      cases hf
    · rw [h] at hf
      have hn : (Outcome.done u).state.currentGroups = none := by
        rw [← hu]
        exact Event.runAll_currentGroups _ rfl
      have he : ∀ f, e = .fault f → f.ofStatement = true := by
        rintro f rfl
        refine fault_walkAll g.file ts s.currentGroups ?_
        show Event.fault f ∈ eventsFrom g ts s
        rw [hes]
        exact List.mem_append_right _ List.mem_cons_self
      rcases Event.fault_cases hw hi he hn hf with h1 | ⟨c, v, rfl, hc, rfl⟩
      · exact .inl h1
      · exact .inr ⟨_, c, rest, v, hes, by rw [hu]; rfl, hc, rfl⟩
  refine ⟨fun f hf => ?_, ?_, ?_⟩
  · rcases hcases f hf with h | ⟨_, _, _, v, _, _, _, h⟩
    · exact .inl h
    · exact .inr ⟨v, h⟩
  · rintro ⟨v, hv⟩
    rcases hcases _ hv with h | ⟨before, c, rest, _, h1, h2, h3, _⟩
    · cases h
    · exact ⟨before, c, rest, h1, h2, h3⟩
  · rintro ⟨before, c, rest, h1, h2, h3⟩
    rcases hb : Event.runAll g before s.leave with ⟨u, f⟩
    rw [hb] at h2
    obtain rfl : f = none := h2
    have hn : u.currentGroups = none := by
      have h := Event.runAll_currentGroups (g := g) before (s := s.leave) rfl
      rw [hb] at h
      exact h
    obtain ⟨v, hv⟩ := Event.run_of_not_fits (g := g) h3 hn
    refine ⟨v, ?_⟩
    rw [hr, h1, Event.runAll_append, hb]
    show ((Event.run g (.gem c) u).andThen _).fault = _
    rcases he : Event.run g (.gem c) u with ⟨t, f⟩
    rw [he] at hv
    cases hv
    rfl

/-- Loading a file ends well, or with a fault of the file, or without a message: the last if and only if
the run of its statements comes to a gem that does not fit -/
theorem load_faults (hw : g.without = w.map .str) (hi : g.interpreter = some i) (text : String)
    (s : State) :
    (∀ f, (s.load g (.ok text)).fault = some f → f.ofFile = true ∨ ∃ v, f = .value v) ∧
    ((∃ v, (s.load g (.ok text)).fault = some (.value v)) ↔
      ∃ ts before c rest, Statement.parse text.toList = .ok ts ∧
        (Statement.walkAll g.file ts s.currentGroups).events = before ++ .gem c :: rest ∧
        (Event.runAll g before s.leave).fault = none ∧ ¬ c.Fits) := by
  have hl : s.load g (.ok text) = (s.note .debug .evaluation
      ("Loading gem dependencies from " ++ g.path.text)).execute g text.toList := rfl
  rw [hl]
  unfold State.execute
  cases hp : Statement.parse text.toList with
  | error f =>
    refine ⟨?_, ?_, ?_⟩
    · rintro _ ⟨⟩
      exact .inl rfl
    · rintro ⟨v, hv⟩
      cases hv
    · rintro ⟨ts, _, _, _, h, _⟩
      cases h
  | ok ts =>
    -- the note about the file stands in the log only, so no event fails for it
    have hlog : ∀ es, (Event.runAll g es (s.note .debug .evaluation
        ("Loading gem dependencies from " ++ g.path.text)).leave).fault =
        (Event.runAll g es s.leave).fault := by
      intro es
      rw [Event.runAll_fault es rfl, Event.runAll_fault es rfl]
      rfl
    obtain ⟨h1, h2⟩ := Statement.runAll_fault hw hi ts (s.note .debug .evaluation
      ("Loading gem dependencies from " ++ g.path.text))
    refine ⟨h1, h2.trans ?_⟩
    simp only [hlog, Except.ok.injEq, exists_and_left, exists_eq_left']
    exact Iff.rfl

end

/-- a gem behind another one, with a list for a group -/
theorem load_faults_list_as_group :
    let g : Setting := ⟨⟨0, ["gem.deps.rb"]⟩, [.str "test"], some (.native "3.0.0"), .absent⟩
    ∃ ts before c rest, Statement.parse "gem 'a'\ngem 'b', group: [['c']]\n".toList = .ok ts ∧
      (Statement.walkAll g.file ts none).events = before ++ .gem c :: rest ∧
      (Event.runAll g before (.start .standard)).fault = none ∧ ¬ c.Fits := by
  intro g
  obtain ⟨_, h⟩ := load_faults (g := g) (w := ["test"]) rfl rfl
    "gem 'a'\ngem 'b', group: [['c']]\n" (.start .standard)
  exact h.mp ⟨.notScalar, by decide +kernel⟩

/-- a number is not taken for one group: the run ends there, without a message -/
theorem not_only_file_faults :
    let g : Setting := ⟨⟨0, ["gem.deps.rb"]⟩, [], some (.native "3.0.0"), .absent⟩
    let o := State.load g (.ok "gem 'a', groups: 5\n") (.start .standard)
    o.fault = some (.value .notElements) ∧ ¬ ∀ f ∈ o.fault, f.ofFile = true := by
  decide +kernel

end Gemfile
