import Gemfile.Files
import Gemfile.Proofs.Except

/-!
# Written files

* `Files.Housed t place`    all the directories above a place are there
* `Files.housed_of_find`    a path that leads to a place has passed them
* `Files.node?_put`         so a file that is put there changes nothing at other places
* `Files.saved_of_write`    what a file that was written has changed
* `Files.read_notFound_iff` when a file is not found
-/

namespace Gemfile.Files

variable {t : Files}

def Housed (t : Files) (place : List String) : Prop :=
  ∀ q, q <+: place → q ≠ place → node? t q = some .directory

lemma node?_of_anchor {place : List String} (h : isAnchor place = true) (t : Files) :
    node? t place = some .directory := if_pos h

/-! ## places that paths lead to -/

lemma housed_start (t : Files) (p : Path) : Housed t (start p) := by
  intro q hq hne
  unfold start at hq hne
  split at hq
  · next h =>
    rw [if_pos h] at hne
    exact absurd (List.prefix_nil.mp hq) hne
  · next h =>
    rw [if_neg h] at hne
    rcases List.prefix_concat_iff.mp (show q <+: [] ++ ["/"] from hq) with hq | hq
    · exact absurd hq hne
    · rw [List.prefix_nil.mp hq]
      exact node?_of_anchor rfl t

lemma Housed.concat {place : List String} (h : Housed t place)
    (hd : node? t place = some .directory) (c : String) : Housed t (place ++ [c]) := by
  intro q hq hne
  rcases List.prefix_concat_iff.mp hq with hq | hq
  · exact absurd hq hne
  · by_cases hp : q = place
    · rw [hp]
      exact hd
    · exact h q hq hp

lemma Housed.dropLast {place : List String} (h : Housed t place) : Housed t place.dropLast := by
  intro q hq hne
  refine h q (hq.trans (List.dropLast_prefix place)) ?_
  rintro rfl
  exact hne (hq.eq_of_length_le (by rw [List.length_dropLast]; omega))

lemma Housed.step {place : List String} (h : Housed t place)
    (hd : node? t place = some .directory) (c : String) : Housed t (step place c) := by
  unfold Files.step parent
  split
  · split
    · exact h
    · split
      · exact h.concat hd ".."
      · exact h.dropLast
  · exact h.concat hd c

lemma Housed.walk {place found : List String} {cs : List String} (h : Housed t place)
    (hw : walk t place cs = .ok found) : Housed t found := by
  induction cs generalizing place with
  | nil =>
    cases hw
    exact h
  | cons c cs ih =>
    rw [Files.walk] at hw
    split at hw
    · cases hw
    · cases hw
    · next hd =>
      split at hw
      · cases hw
      · exact ih (h.step hd c) hw

theorem housed_of_find {p : Path} {place : List String} (h : t.find p = .ok place) :
    Housed t place := by
  unfold find at h
  split at h
  · cases h
  · split at h
    · cases h
    · exact (housed_start t p).walk h

/-! ## writing -/

lemma lookup_put {place q : List String} (hq : q ≠ place) (t : Files) (text : String) :
    (t.put place text).lookup q = t.lookup q := by
  have hf : ∀ t : Files, (t.filter fun e => e.1 != place).lookup q = t.lookup q := by
    intro t
    induction t with
    | nil => rfl
    | cons e t ih =>
      by_cases he : e.1 = place
      · have h1 : (q == e.1) = false := by
          rw [he]
          exact beq_eq_false_iff_ne.mpr hq
        rw [List.filter_cons_of_neg (by simp [he]), ih, List.lookup_cons, h1]
      · rw [List.filter_cons_of_pos (by simp [he]), List.lookup_cons, List.lookup_cons, ih]
  unfold put
  rw [List.lookup_cons, beq_eq_false_iff_ne.mpr hq]
  exact hf t

lemma any_put {place q : List String} (hq : ¬ q <+: place) (t : Files) (text : String) :
    (t.put place text).any (fun e => q.isPrefixOf e.1) = t.any fun e => q.isPrefixOf e.1 := by
  have hp : q.isPrefixOf place = false := by
    rw [← Bool.not_eq_true, List.isPrefixOf_iff_prefix]
    exact hq
  unfold put
  rw [List.any_cons, hp, Bool.false_or, List.any_filter]
  refine List.any_congr rfl fun e => ?_
  by_cases he : e.1 = place
  · rw [he, hp, Bool.and_false]
  · simp [he]

/-- a file that is put at a place changes nothing at other places -/
theorem node?_put {place q : List String} (h : Housed t place) (hq : q ≠ place) (text : String) :
    node? (t.put place text) q = node? t q := by
  by_cases ha : isAnchor q = true
  · rw [node?_of_anchor ha, node?_of_anchor ha]
  · unfold node?
    rw [if_neg ha, if_neg ha, lookup_put hq]
    by_cases hp : q <+: place
    · -- the place stands in `q`, which has been a directory before
      have hd := h q hp hq
      unfold node? at hd
      rw [if_neg ha] at hd
      rw [hd]
      cases hl : t.lookup q with
      | some n =>
        rw [hl] at hd
        exact hd
      | none =>
        have h1 : (t.put place text).any (fun e => q.isPrefixOf e.1) = true :=
          List.any_eq_true.mpr ⟨_, List.mem_cons_self, List.isPrefixOf_iff_prefix.mpr hp⟩
        simp only [h1, if_true]
    · rw [any_put hp]

lemma node?_put_self {place : List String} (h : isAnchor place = false) (t : Files) (text : String) :
    node? (t.put place text) place = some (.file (some text)) := by
  unfold node? put
  rw [if_neg (by simp [h]), List.lookup_cons_self]

/-- `u` is `t` with a text as the whole file at the place that a path leads to -/
def Saved (t : Files) (p : Path) (text : String) (u : Files) : Prop :=
  ∃ place, t.find p = .ok place ∧ node? u place = some (.file (some text)) ∧
    ∀ q, q ≠ place → node? u q = node? t q

theorem saved_of_write {p : Path} {text : String} {u : Files} (h : t.write p text = .ok u) :
    t.Saved p text u := by
  obtain ⟨place, hf, h⟩ := bind_eq_ok.mp h
  refine ⟨place, hf, ?_⟩
  by_cases ha : isAnchor place = true
  · rw [node?_of_anchor ha] at h
    cases h
  · have hu : u = t.put place text := by
      split at h
      · cases h
      · cases h
        rfl
    rw [hu]
    exact ⟨node?_put_self (Bool.eq_false_iff.mpr ha) t text,
      fun q hq => node?_put (housed_of_find hf) hq text⟩

/-! ## reading -/

lemma walk_error {place : List String} {cs : List String} {f : FileFault}
    (h : walk t place cs = .error f) : f = .notFound ∨ f = .notDirectory ∨ f = .tooLong := by
  induction cs generalizing place with
  | nil => cases h
  | cons c cs ih =>
    rw [walk] at h
    split at h
    · cases h
      exact .inl rfl
    · cases h
      exact .inr (.inl rfl)
    · split at h
      · cases h
        exact .inr (.inr rfl)
      · exact ih h

lemma find_error {p : Path} {f : FileFault} (h : t.find p = .error f) :
    f = .notFound ∨ f = .notDirectory ∨ f = .tooLong ∨ f = .notPath := by
  unfold find at h
  split at h
  · cases h
    exact .inr (.inr (.inr rfl))
  · split at h
    · cases h
      exact .inr (.inr (.inl rfl))
    · rcases walk_error h with rfl | rfl | rfl
      · exact .inl rfl
      · exact .inr (.inl rfl)
      · exact .inr (.inr (.inl rfl))

/-- a file is not found if nothing is there, but for what cannot be there: a path that goes on behind
a file, and one that is no path -/
theorem read_notFound_iff (t : Files) (p : Path) :
    t.read p = .error .notFound ↔
      t.has p = .ok false ∧ t.find p ≠ .error .notDirectory ∧ t.find p ≠ .error .notPath := by
  unfold read has
  cases hf : t.find p with
  | error f =>
    rcases find_error hf with rfl | rfl | rfl | rfl <;> simp [bind, Except.bind]
  | ok place =>
    rw [ok_bind]
    cases hn : node? t place with
    | none => simp [hn, throw, throwThe, MonadExceptOf.throw]
    | some n =>
      cases n with
      | directory => simp [hn, throw, throwThe, MonadExceptOf.throw]
      | file text => cases text <;> simp [hn, throw, throwThe, MonadExceptOf.throw, pure, Except.pure]

end Gemfile.Files
