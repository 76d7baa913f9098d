import Gemfile.CommandLine
import Gemfile.Proofs.Faults
import Gemfile.Proofs.Files

/-!
# What a run of the command line writes

* `State.load_file_iff`        only the target can be a file that is not found
* `CommandLine.evaluation`     the evaluation that a run makes
* `Run.Quiet`, `Run.Delivered` nothing is written; one text is written where it belongs
* `CommandLine.Ends`           what a run writes, keeps and answers
* `finish_cases`               what a run can do behind its evaluation
* `perform_ends`, `run_ends`   so a run writes only if it ends well, and then what it has evaluated to
                               the end
* `perform_behind_file`        a target behind a file is not missing
-/

namespace Gemfile

/-! ## files that are not found -/

/-- no statement looks for a file -/
lemma Event.contribution_not_file {g : Setting} {e : Event}
    (he : ∀ f, e = .fault f → f.ofStatement = true) {m : Interpreter.Memory} {f : Fault}
    (h : (e.contribution g m).fault = some f) (k : FileFault) : f ≠ .file k := by
  rintro rfl
  cases e with
  | gem c =>
    obtain ⟨f', hf', hl⟩ := Option.map_eq_some_iff.mp h
    rcases c.contribution_cases with ⟨es, v, hk⟩ | ⟨-, hk⟩
    · rw [hk] at hf'
      cases hf'
      cases hl
    · cases hr : c.routed g.without c.groups with
      | ok ds =>
        rw [hk, hr] at hf'
        cases hf'
      | error f =>
        rw [hk, hr] at hf'
        cases hf'
        rcases GemCall.routed_error hr with ⟨-, r, -, rfl⟩ | ⟨-, v, rfl⟩
        · cases hl
        · cases hl
  | ruby version options =>
    obtain ⟨m', f', hc, hf⟩ := g.checked_eq version options m
    have h1 : (g.checked version options m).fault = some (.file k) := h
    rw [hc] at h1
    exact nomatch hf _ h1
  | fault f =>
    obtain rfl : f = .file k := Option.some.inj h
    exact nomatch he _ rfl
  | source url => cases h
  | remark entry => cases h
  | enter names => cases h
  | leave => cases h

lemma Event.contributions_not_file {g : Setting} {es : List Event}
    (he : ∀ f, .fault f ∈ es → f.ofStatement = true) {m : Interpreter.Memory} {f : Fault}
    (h : (contributions g es m).fault = some f) (k : FileFault) : f ≠ .file k := by
  induction es generalizing m with
  | nil => cases h
  | cons e es ih =>
    rw [contributions, Contribution.andThen] at h
    cases hf : (e.contribution g m).fault with
    | some f' =>
      rw [hf] at h
      dsimp only at h
      refine contribution_not_file (fun f'' hf'' => he f'' ?_) h k
      rw [hf'']
      exact List.mem_cons_self
    | none =>
      rw [hf] at h
      exact ih (fun f' hf' => he f' (List.mem_cons_of_mem e hf')) h

/-- a file that is not found is the target -/
lemma State.load_file_iff {g : Setting} {contents : Except FileFault String} {s : State}
    (hs : s.currentGroups = none) (k : FileFault) :
    (s.load g contents).fault = some (.file k) ↔ contents = .error k := by
  cases contents with
  | error f =>
    show some (Fault.file f) = some (.file k) ↔ _
    simp
  | ok text =>
    have h : (s.load g (.ok text)).fault ≠ some (.file k) := by
      show (State.execute g text.toList _).fault ≠ _
      unfold State.execute
      split
      · exact nofun
      · next ts hts =>
        have hn : (s.note .debug .evaluation
            ("Loading gem dependencies from " ++ g.path.text)).currentGroups = none := hs
        rw [Statement.runAll_eq g ts hn, Event.runAll_fault _ hn]
        exact fun h => Event.contributions_not_file
          (fun _ => Statement.fault_walkAll g.file ts none) h k rfl
    simp [h]

end Gemfile

namespace Gemfile.CommandLine

variable (s : Settings) (r : Surroundings) (w : World)

/-- the evaluation that a run makes if nothing holds it up -/
def evaluation : Outcome := (startOf w).load (settingOf s r) (w.files.read s.target)

/-- the output file is there and is not to be overwritten -/
def Blocked : Prop :=
  s.force = false ∧ ∃ p, s.outputFile = some p ∧ w.files.has p = .ok true

/-- nothing is there under the name of the target; a path that goes on behind a file leads nowhere
either, but that is another fault -/
def Missing : Prop :=
  w.files.has s.target = .ok false ∧ w.files.find s.target ≠ .error .notDirectory ∧
    w.files.find s.target ≠ .error .notPath

/-- nothing is printed, and every file is as it was -/
structure Run.Quiet (d : Run) : Prop where
  output : d.output = ""
  files : d.world.files = w.files

/-- a text is printed, or is the whole output file, and nothing else is written -/
def Run.Delivered (d : Run) (text : String) : Prop :=
  match s.outputFile with
  | none => d.output = text ∧ d.world.files = w.files
  | some p => d.output = "" ∧ w.files.Saved p text d.world.files

/-- what a run writes, keeps and answers -/
structure Ends (d : Run) : Prop where
  /-- the file has been evaluated to its end, and its rendering is written -/
  written : s.version = false → d.ending = .exit 0 →
    (evaluation s r w).fault = none ∧ ∃ text,
      render s (settingOf s r) (evaluation s r w).state = .ok text ∧ text ≠ "" ∧ d.Delivered s w text
  unwritten : s.version = true ∨ d.ending ≠ .exit 0 → d.Quiet w
  /-- what was there is there as it was, unless it may be overwritten -/
  kept : s.force = false → ∀ place n, w.files.node? place = some n →
    d.world.files.node? place = some n
  version : s.version = true → d.ending = .exit 0
  exit_one : d.ending = .exit 1 ↔ s.version = false ∧
    (Blocked s w ∨ (∀ f, isBlocked s w ≠ .error f) ∧
      (Missing s w ∨ ∃ f message, (evaluation s r w).fault = some f ∧ f.message? = some message))
  codes : d.ending = .exit 0 ∨ d.ending = .exit 1 ∨ ∃ f, d.ending = .escaped f

variable {s r w}

/-! ## texts that are written -/

lemma append_ne_empty {a : String} (h : a ≠ "") (b : String) : a ++ b ≠ "" := by
  intro hab
  have h1 : (a ++ b).toList = [] := by rw [hab]; rfl
  rw [String.toList_append] at h1
  exact h (String.toList_eq_nil_iff.mp (List.append_eq_nil_iff.mp h1).1)

lemma render_object_ne_empty (entries : List (Text.Codes × Json)) :
    (Json.object entries).render ≠ "" := by
  unfold Json.render
  rw [Json.textAt]
  unfold Json.enclosed
  split
  · decide
  · exact append_ne_empty (append_ne_empty (append_ne_empty (by decide) _) _) _

lemma render_ne_empty {g : Setting} {t : State} {text : String} (h : render s g t = .ok text) :
    text ≠ "" := by
  unfold render at h
  split at h
  · obtain ⟨items, -, rfl⟩ := map_eq_ok.mp h
    exact append_ne_empty (append_ne_empty (append_ne_empty (append_ne_empty (by decide) _) _) _) _
  · obtain ⟨d, -, rfl⟩ := map_eq_ok.mp h
    exact render_object_ne_empty _

/-! ## the two ways a run can go -/

lemma isBlocked_eq_true : isBlocked s w = .ok true ↔ Blocked s w := by
  unfold isBlocked Blocked
  cases s.outputFile with
  | none => simp
  | some p => cases s.force <;> simp

lemma deliver_cases (s : Settings) (r : Surroundings) (w : World) (log : List Log.Entry)
    (text : String) :
    (deliver s r w log text).ending = .exit 0 ∧ (deliver s r w log text).Delivered s w text ∨
      ∃ f, (deliver s r w log text).ending = .escaped f ∧ (deliver s r w log text).Quiet w := by
  unfold deliver Run.Delivered
  cases s.outputFile with
  | none => exact .inl ⟨rfl, rfl, rfl⟩
  | some p =>
    dsimp only
    cases hw : w.files.write p text with
    | error f => exact .inr ⟨.file f, rfl, rfl, rfl⟩
    | ok files => exact .inl ⟨rfl, rfl, Files.saved_of_write hw⟩

/-- behind an evaluation, a run reports its fault, or writes a rendering, or lets a fault escape -/
lemma finish_cases (s : Settings) (r : Surroundings) (w : World) (o : Outcome) :
    (∃ f message, o.fault = some f ∧ reported? s f = some message ∧
      (finish s r w o).ending = .exit 1 ∧ (finish s r w o).Quiet w) ∨
    (∃ text, o.fault = none ∧ render s (settingOf s r) o.state = .ok text ∧
      (finish s r w o).ending = .exit 0 ∧ (finish s r w o).Delivered s w text) ∨
    (∀ f, o.fault = some f → reported? s f = none) ∧
      ∃ f, (finish s r w o).ending = .escaped f ∧ (finish s r w o).Quiet w := by
  unfold finish
  cases ho : o.fault with
  | some f =>
    dsimp only
    cases hm : reported? s f with
    | some message => exact .inl ⟨f, message, rfl, hm, rfl, rfl, rfl⟩
    | none =>
      refine .inr (.inr ⟨fun f' hf' => ?_, f, rfl, rfl, rfl⟩)
      cases hf'
      exact hm
  | none =>
    dsimp only
    cases hr : render s (settingOf s r) o.state with
    | error f => exact .inr (.inr ⟨nofun, f, rfl, rfl, rfl⟩)
    | ok text =>
      dsimp only
      rcases deliver_cases s r (after w o.state) _ text with ⟨h, hd⟩ | ⟨f, h, hq⟩
      · exact .inr (.inl ⟨text, rfl, rfl, h, hd⟩)
      · exact .inr (.inr ⟨nofun, f, h, hq.output, hq.files⟩)

lemma reported?_isSome {f : Fault} : (∃ message, reported? s f = some message) ↔
    f = .file .notFound ∨ ∃ message, f.message? = some message := by
  unfold reported?
  split
  · simp
  · next hf => exact (or_iff_right hf).symm

/-- a file is not found if the target is missing -/
lemma evaluation_notFound_iff :
    (evaluation s r w).fault = some (.file .notFound) ↔ Missing s w :=
  (State.load_file_iff rfl .notFound).trans (Files.read_notFound_iff w.files s.target)

lemma reported_iff : (∃ f message, (evaluation s r w).fault = some f ∧ reported? s f = some message) ↔
    Missing s w ∨ ∃ f message, (evaluation s r w).fault = some f ∧ f.message? = some message := by
  rw [← evaluation_notFound_iff (r := r)]
  constructor
  · rintro ⟨f, message, hf, hm⟩
    rcases reported?_isSome.mp ⟨message, hm⟩ with rfl | ⟨message, hm⟩
    · exact .inl hf
    · exact .inr ⟨f, message, hf, hm⟩
  · rintro (hf | ⟨f, message, hf, hm⟩)
    · obtain ⟨message, hm⟩ := (reported?_isSome (s := s)).mpr (.inl rfl)
      exact ⟨_, message, hf, hm⟩
    · obtain ⟨message, hm⟩ := (reported?_isSome (s := s)).mpr (.inr ⟨message, hm⟩)
      exact ⟨f, message, hf, hm⟩

lemma Run.Quiet.kept {d : Run} (h : d.Quiet w) {place : List String} {n : Files.Node}
    (hn : w.files.node? place = some n) : d.world.files.node? place = some n := by
  rw [h.files]
  exact hn

/-- the output file of a run that is not held up was not there, unless it may be overwritten -/
lemma Run.Delivered.kept {d : Run} {text : String} (h : d.Delivered s w text)
    (hf : s.force = false) (hb : isBlocked s w = .ok false) {place : List String} {n : Files.Node}
    (hn : w.files.node? place = some n) : d.world.files.node? place = some n := by
  unfold Delivered at h
  unfold isBlocked at hb
  cases hp : s.outputFile with
  | none =>
    rw [hp] at h
    rw [h.2]
    exact hn
  | some p =>
    rw [hp] at h hb
    rw [hf] at hb
    obtain ⟨-, written, hfind, -, others⟩ := h
    have hw : (w.files.node? written).isSome = false := by
      have hh : w.files.has p = .ok (w.files.node? written).isSome := by
        unfold Files.has
        rw [hfind]
      exact Except.ok.inj (hh.symm.trans hb)
    rw [others place ?_]
    · exact hn
    · rintro rfl
      rw [hn] at hw
      cases hw

/-! ## runs -/

/-- of a run that writes nothing and does not end well, only the way it ends is left to say -/
lemma ends_of_quiet {d : Run} (hv : s.version = false) (hq : d.Quiet w)
    (he : d.ending = .exit 1 ∨ ∃ f, d.ending = .escaped f)
    (exit_one : d.ending = .exit 1 ↔ s.version = false ∧
      (Blocked s w ∨ (∀ f, isBlocked s w ≠ .error f) ∧
        (Missing s w ∨ ∃ f message, (evaluation s r w).fault = some f ∧ f.message? = some message))) :
    Ends s r w d where
  written _ h := by
    rcases he with he | ⟨f, he⟩
    · cases he.symm.trans h
    · cases he.symm.trans h
  unwritten _ := hq
  kept _ _ _ := hq.kept
  version h := by cases hv.symm.trans h
  exit_one := exit_one
  codes := .inr he

lemma ends_of_finish (hv : s.version = false) (hb : isBlocked s w = .ok false) :
    Ends s r w (finish s r w (evaluation s r w)) := by
  have hnot : ¬ Blocked s w := by
    rw [← isBlocked_eq_true, hb]
    exact nofun
  have hone : s.version = false ∧ (Blocked s w ∨ (∀ f, isBlocked s w ≠ .error f) ∧
      (Missing s w ∨ ∃ f message, (evaluation s r w).fault = some f ∧ f.message? = some message)) ↔
      ∃ f message, (evaluation s r w).fault = some f ∧ reported? s f = some message := by
    rw [reported_iff, hb]
    simp [hv, hnot]
  rcases finish_cases s r w (evaluation s r w) with ⟨f, message, hf, hm, he, hq⟩ |
    ⟨text, hf, ht, he, hd⟩ | ⟨hm, f, he, hq⟩
  · exact ends_of_quiet hv hq (.inl he) (iff_of_true he (hone.mpr ⟨f, message, hf, hm⟩))
  · exact {
      written := fun _ _ => ⟨hf, text, ht, render_ne_empty ht, hd⟩
      unwritten := fun h => by
        rcases h with h | h
        · cases hv.symm.trans h
        · exact absurd he h
      kept := fun hforce _ _ => hd.kept hforce hb
      version := fun _ => he
      exit_one := by
        refine iff_of_false (fun h => by cases he.symm.trans h) fun h => ?_
        obtain ⟨f, message, hf', -⟩ := hone.mp h
        cases hf.symm.trans hf'
      codes := .inl he }
  · refine ends_of_quiet hv hq (.inr ⟨f, he⟩) (iff_of_false (fun h => ?_) fun h => ?_)
    · cases he.symm.trans h
    · obtain ⟨f, message, hf', hm'⟩ := hone.mp h
      cases (hm f hf').symm.trans hm'

/-- the three checks before an evaluation -/
lemma perform_ends (s : Settings) (r : Surroundings) (w : World) : Ends s r w (perform s r w) := by
  unfold perform
  cases hv : s.version with
  | true =>
    rw [if_pos rfl]
    exact {
      written := fun h => by cases hv.symm.trans h
      unwritten := fun _ => ⟨rfl, rfl⟩
      kept := fun _ _ _ => id
      version := fun _ => rfl
      exit_one := iff_of_false nofun fun h => by cases hv.symm.trans h.1
      codes := .inl rfl }
  | false =>
    rw [if_neg Bool.false_ne_true]
    cases hb : isBlocked s w with
    | error f =>
      have hnot : ¬ Blocked s w := by
        rw [← isBlocked_eq_true, hb]
        exact nofun
      refine ends_of_quiet hv ⟨rfl, rfl⟩ (.inr ⟨_, rfl⟩) (iff_of_false (fun h => by cases h) ?_)
      rintro ⟨-, h | ⟨h, -⟩⟩
      · exact hnot h
      · exact h f hb
    | ok b =>
      cases b with
      | true =>
        exact ends_of_quiet hv ⟨rfl, rfl⟩ (.inl rfl)
          (iff_of_true rfl ⟨hv, .inl (isBlocked_eq_true.mp hb)⟩)
      | false => exact ends_of_finish hv hb

/-- what is logged does not matter -/
lemma Ends.withLog {d : Run} (h : Ends s r w d) (log : List Log.Entry) :
    Ends s r w { d with log := log } where
  written hv he := h.written hv he
  unwritten hu := ⟨(h.unwritten hu).output, (h.unwritten hu).files⟩
  kept := h.kept
  version := h.version
  exit_one := h.exit_one
  codes := h.codes

/-- a run writes if and only if it ends well and is not about its version, and then what it has
evaluated to the end; a run without settings does not write either -/
theorem run_ends (r : Surroundings) (w : World) :
    (∀ s, Ends s r w (perform s r w)) ∧
      ∀ args, match Settings.read args r.environment with
        | .error _ => (run args r w).Quiet w
        | .ok s => Ends s r w (run args r w) := by
  refine ⟨fun s => perform_ends s r w, fun args => ?_⟩
  unfold run
  cases Settings.read args r.environment with
  | error f => exact ⟨rfl, rfl⟩
  | ok s => exact (perform_ends s r w).withLog _

/-- there is nothing behind a file, but a run that is to read it is not told so -/
theorem perform_behind_file :
    let s := { Settings.standard with target := ⟨0, ["Gemfile", "x"]⟩, rubyVersion := some "3.2.2" }
    let r : Surroundings := ⟨[], ⟨none, .output ""⟩, "/"⟩
    let w : World := ⟨[(["Gemfile"], .file (some "gem 'a'\n"))], .standard, []⟩
    w.files.has s.target = .ok false ∧
      ¬ ((perform s r w).ending = .exit 1 ↔ s.version = false ∧ (Blocked s w ∨
        w.files.has s.target = .ok false ∨
        ∃ f message, (evaluation s r w).fault = some f ∧ f.message? = some message)) := by
  intro s r w
  have h1 : w.files.has s.target = .ok false := by
    have h : (w.files.has s.target).toOption = some false := by decide +kernel
    cases hh : w.files.has s.target with
    | error f =>
      rw [hh] at h
      cases h
    | ok b =>
      rw [hh] at h
      cases h
      rfl
  have h2 : (perform s r w).ending = .escaped (.file .notDirectory) := by decide +kernel
  refine ⟨h1, fun h => ?_⟩
  have h3 := h.mpr ⟨rfl, .inr (.inl h1)⟩
  rw [h2] at h3
  cases h3

end Gemfile.CommandLine
