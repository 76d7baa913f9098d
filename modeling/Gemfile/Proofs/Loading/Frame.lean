import Gemfile.Proofs.Loading
import Gemfile.Proofs.Table

/-!
# What a file adds

* `Event.contributions_given`   with a given interpreter nothing that is remembered makes a difference
* `Load.Adds l o`   `l` ends as `o` does, and adds what `o` has in its stores to those of any state
* `Load.run_adds`   every file adds what it adds to empty stores
* `runAll_adds`     so some files add what each of them adds by itself, one after the other
-/

namespace Gemfile

namespace Event
variable {g : Setting} {i : Interpreter}

lemma checked_given (hi : g.interpreter = some i) (version : Value) (options : Options)
    (m m' : Interpreter.Memory) :
    g.checked version options m' = { g.checked version options m with detected := m' } := by
  have h : ∀ m, g.asked m = .ok (i, m) := by
    intro m
    unfold Setting.asked
    rw [hi]
  unfold Setting.checked
  rw [h, h]
  by_cases he : options.engineAlone = true
  · simp only [if_pos he]
  · simp only [if_neg he]

lemma contribution_given (hi : g.interpreter = some i) (e : Event) (m m' : Interpreter.Memory) :
    e.contribution g m' = { e.contribution g m with detected := m' } := by
  cases e with
  | gem c => exact congrArg (Contribution.located c.place) (c.contribution_memory g.without m m')
  | ruby version options => exact checked_given hi version options m m'
  | source url => rfl
  | remark entry => rfl
  | fault f => rfl
  | enter names => rfl
  | leave => rfl

/-- with a given interpreter nothing that is remembered makes a difference -/
theorem contributions_given (hi : g.interpreter = some i) (es : List Event)
    (m m' : Interpreter.Memory) :
    contributions g es m' = { contributions g es m with detected := m' } := by
  induction es generalizing m m' with
  | nil => rfl
  | cons e es ih =>
    have h := e.contribution_given hi m m'
    -- what is remembered does not change, so the rest starts from the same
    have hd : (e.contribution g m).detected = m := by rw [e.contribution_given hi m m]
    rw [contributions, contributions, h]
    unfold Contribution.andThen
    cases (e.contribution g m).fault with
    | some f => rfl
    | none =>
      dsimp only
      rw [hd, ih m m']
      rfl

end Event

namespace Load

/-- the file `l` ends as `o` does, and adds what `o` has in its stores to those of any state -/
structure Adds (l : Load) (o : Outcome) : Prop where
  fault : ∀ s, (l.run s).fault = o.fault
  groups : ∀ s, (l.run s).state.groups = o.state.groups
  requests : ∀ s, (l.run s).state.requests = s.requests ++ o.state.requests
  /-- no name is registered twice, and every one takes the place it has in the state -/
  separate : Separate (Table.keys o.state.vendored.directories)
  vendored : ∀ s, (l.run s).state.vendored.directories =
    s.vendored.directories.putAll o.state.vendored.directories

/-- what the statements of a file add -/
def contribution (l : Load) : Contribution := Event.contributions l.setting l.events []

lemma run_contributes {l : Load} (hi : l.setting.interpreter.isSome) (s : State) :
    ∃ detected log, l.run s =
      ⟨{ l.contribution.applied (l.begun s) with detected := detected, log := log },
        l.unread.or l.contribution.fault⟩ := by
  obtain ⟨i, hi⟩ := Option.isSome_iff_exists.mp hi
  obtain ⟨log, h⟩ := Event.runAll_contributes (g := l.setting) (s := l.begun s) l.events rfl
  rw [Event.contributions_given hi l.events [] (l.begun s).detected] at h
  refine ⟨s.detected, log, ?_⟩
  rw [run_events, h]
  rfl

/-- what a file adds to any stores is what it leaves in empty ones -/
theorem run_adds {l : Load} (hi : l.setting.interpreter.isSome) (sources : Sources) :
    l.Adds (l.run (.start sources)) := by
  obtain ⟨_, _, h0⟩ := run_contributes hi (.start sources)
  rw [h0]
  have hs : Separate (Table.keys ([] : Table Scalar Path)) := .nil
  constructor
  · intro s
    obtain ⟨_, _, h⟩ := run_contributes hi s
    rw [h]
  · intro s
    obtain ⟨_, _, h⟩ := run_contributes hi s
    rw [h]
    rfl
  · intro s
    obtain ⟨_, _, h⟩ := run_contributes hi s
    rw [h]
    rfl
  · exact Table.separate_putAll hs _
  · intro s
    obtain ⟨_, _, h⟩ := run_contributes hi s
    rw [h]
    exact (Table.putAll_putAll hs s.vendored.directories l.contribution.registered).symm

end Load

/-- With given interpreters the effect of a file is the same on top of any requests and vendored
gems: it ends with the same fault or none and with the same groups, and adds the same requests and
directories.  So behind some files stand the requests that each of them makes by itself, in order,
those before a failure included. -/
theorem runAll_adds (ls : List Load) (hi : ∀ l ∈ ls, l.setting.interpreter.isSome)
    (sources : Sources) :
    (∀ l ∈ ls, l.Adds (l.run (.start sources))) ∧
      ∀ s, (Load.runAll ls s).requests =
        s.requests ++ ls.flatMap fun l => (l.run (.start sources)).state.requests := by
  have adds : ∀ l ∈ ls, l.Adds (l.run (.start sources)) :=
    fun l hl => Load.run_adds (hi l hl) sources
  refine ⟨adds, ?_⟩
  clear hi
  induction ls with
  | nil => exact fun s => (List.append_nil _).symm
  | cons l ls ih =>
    intro s
    obtain ⟨h1, h2⟩ := List.forall_mem_cons.mp adds
    rw [Load.runAll, ih h2, h1.requests, List.flatMap_cons, List.append_assoc]

/-- a file that fails behind a vendored gem, and one behind it -/
theorem runAll_adds_failing :
    let g : Setting := ⟨⟨0, ["gem.deps.rb"]⟩, [], some (.native "3.0.0"), .absent⟩
    let broken : Load := ⟨g, .ok "gem 'a', path: 'a'\nbogus"⟩
    let whole : Load := ⟨g, .ok "gem 'b'"⟩
    (∀ s, (broken.run s).fault.isSome) ∧
      (∀ s, (broken.run s).state.vendored.directories =
        s.vendored.directories.putAll [(.str "a", ⟨0, ["a"]⟩)]) ∧
      ∀ s, (Load.runAll [broken, whole] s).requests =
        s.requests ++ [⟨.str "a", []⟩, ⟨.str "b", []⟩] := by
  intro g broken whole
  obtain ⟨adds, requests⟩ := runAll_adds [broken, whole] (by decide) .standard
  have hb := adds broken List.mem_cons_self
  have hf : (broken.run (.start .standard)).fault.isSome := by decide +kernel
  have hv : (broken.run (.start .standard)).state.vendored.directories =
      [(.str "a", ⟨0, ["a"]⟩)] := by decide +kernel
  have h1 : (broken.run (.start .standard)).state.requests = [⟨.str "a", []⟩] := by
    decide +kernel
  have h2 : (whole.run (.start .standard)).state.requests = [⟨.str "b", []⟩] := by
    decide +kernel
  refine ⟨fun s => ?_, fun s => ?_, fun s => ?_⟩
  · rw [hb.fault]
    exact hf
  · rw [hb.vendored, hv]
  · rw [requests, List.flatMap_cons, List.flatMap_cons, h1, h2]
    rfl

end Gemfile
