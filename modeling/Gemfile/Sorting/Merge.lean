import Gemfile.Sorting.Search

/-!
# Merging two rows

Two rows in order become one, by looking at one element of each in turn; once one row has been
taken from many times in a row, by galloping through either row for as long as that pays.  How many
times are many is the threshold, which a merge changes and leaves to the next one.

* `Sorting.merge`        two rows, of which `near` is used up to its last element first or `far` to
                         its end
* `Sorting.mergeRuns`    two rows one behind the other, from the end at which the shorter one is
* `mergeRuns_perm`       no element is lost or added
-/

namespace Gemfile.Sorting

/-- a row, and the threshold for the next merge -/
abbrev Merged (α : Type) := List α × Nat

/-- the least number of elements for which galloping pays -/
def worthGalloping : Nat := 7

section
variable {α : Type}

/-- how many elements in front `stays` holds of, found by galloping from the first one; `backward`
tells that the row has been turned round, so that halves are rounded the other way -/
def leading (backward : Bool) (stays : α → Bool) (xs : List α) : Nat :=
  let row := xs.toArray
  let holds (i : Nat) := row[i]?.any stays
  if backward then
    row.size - gallop (fun i => !holds (row.size - 1 - i)) row.size (row.size - 1)
  else gallop holds row.size 0

/-- nothing is left to compare: what is left of `far` comes before what is left of `near` -/
def settled (near far : List α) : Bool := far.isEmpty || near.length ≤ 1

/-- what galloping takes, what it leaves of both rows, and for how many elements it went on -/
structure Leap (α : Type) where
  taken : List α
  near : List α
  far : List α
  count : Nat

/-- a leap through `near` up to the first element of `far`, and that element -/
def leapNear (backward : Bool) (takes : α → α → Bool) (near far : List α) : Leap α :=
  match far with
  | [] => ⟨[], near, [], 0⟩
  | f :: fs =>
    let k := leading backward (fun n => !takes n f) near
    let rest := near.drop k
    if rest.length ≤ 1 then ⟨near.take k, rest, f :: fs, k⟩ else ⟨near.take k ++ [f], rest, fs, k⟩

/-- a leap through `far` up to the first element of `near`, and that element -/
def leapFar (backward : Bool) (takes : α → α → Bool) (near far : List α) : Leap α :=
  match near with
  | [] => ⟨[], [], far, 0⟩
  | n :: ns =>
    let k := leading backward (takes n) far
    let rest := far.drop k
    if rest.isEmpty then ⟨far.take k, n :: ns, [], k⟩ else ⟨far.take k ++ [n], ns, rest, k⟩

mutual

/-- one element after the other; `ofNear` and `ofFar` count those taken from a row in a row -/
def stepwise (backward : Bool) (takes : α → α → Bool) :
    Nat → Nat → Nat → Nat → List α → List α → Merged α
  | 0, threshold, _, _, near, far => (far ++ near, threshold)
  | fuel + 1, threshold, ofNear, ofFar, near, far =>
    match near, far with
    | n :: m :: ns, f :: fs =>
      if takes n f then
        let r :=
          if threshold ≤ ofFar + 1 then leaping backward takes fuel threshold (n :: m :: ns) fs
          else stepwise backward takes fuel threshold 0 (ofFar + 1) (n :: m :: ns) fs
        (f :: r.1, r.2)
      else
        let r :=
          if threshold ≤ ofNear + 1 then leaping backward takes fuel threshold (m :: ns) (f :: fs)
          else stepwise backward takes fuel threshold (ofNear + 1) 0 (m :: ns) (f :: fs)
        (n :: r.1, r.2)
    | near, far => (far ++ near, threshold)

/-- one leap through each row, as long as one of them is worth it -/
def leaping (backward : Bool) (takes : α → α → Bool) :
    Nat → Nat → List α → List α → Merged α
  | 0, threshold, near, far => (far ++ near, threshold)
  | fuel + 1, threshold, near, far =>
    if settled near far then (far ++ near, threshold)
    else
      let first := if backward then leapFar backward takes near far
        else leapNear backward takes near far
      if settled first.near first.far then (first.taken ++ first.far ++ first.near, threshold)
      else
        let second := if backward then leapNear backward takes first.near first.far
          else leapFar backward takes first.near first.far
        let r :=
          if settled second.near second.far then (second.far ++ second.near, threshold)
          else if worthGalloping ≤ first.count || worthGalloping ≤ second.count then
            leaping backward takes fuel (max 1 (threshold - 1)) second.near second.far
          else stepwise backward takes fuel (threshold + 1) 0 0 second.near second.far
        (first.taken ++ second.taken ++ r.1, r.2)

end

/-- two rows as one; the first element of `far` comes before all others, the last one of `near`
behind them, and `takes n f` tells that `f` comes before `n` -/
def merge (backward : Bool) (takes : α → α → Bool) (threshold : Nat) (near far : List α) :
    Merged α :=
  match far with
  | [] => (near, threshold)
  | f :: fs =>
    let r := stepwise backward takes (near.length + fs.length + 1) threshold 0 0 near fs
    (f :: r.1, r.2)

/-- two rows one behind the other as one: what is in place at either end stays, and the shorter of
the rest is the near row -/
def mergeRuns (lt : α → α → Bool) (threshold : Nat) (a b : List α) : Merged α :=
  match b.head?, a.getLast? with
  | some least, some greatest =>
    let front := leading false (fun x => !lt least x) a
    let a' := a.drop front
    let back := b.length - leading true (fun x => !lt x greatest) b.reverse
    let b' := b.take back
    if a'.isEmpty || b'.isEmpty then (a ++ b, threshold)
    else if a'.length ≤ b'.length then
      let r := merge false (fun n f => lt f n) threshold a' b'
      (a.take front ++ r.1 ++ b.drop back, r.2)
    else
      let r := merge true lt threshold b'.reverse a'.reverse
      (a.take front ++ r.1.reverse ++ b.drop back, r.2)
  | _, _ => (a ++ b, threshold)

/-- what stands between the two parts of a row may as well stand behind it -/
theorem parted_perm (k : Nat) (xs ys : List α) :
    (xs.take k ++ ys ++ xs.drop k).Perm (xs ++ ys) := by
  rw [List.append_assoc]
  refine (List.perm_append_comm.append_left (xs.take k)).trans ?_
  rw [← List.append_assoc, List.take_append_drop]

theorem leapNear_perm (backward : Bool) (takes : α → α → Bool) (near far : List α) :
    let l := leapNear backward takes near far
    (l.taken ++ l.near ++ l.far).Perm (near ++ far) := by
  cases far with
  | nil => simp [leapNear]
  | cons f fs =>
    simp only [leapNear]
    split
    · rw [List.take_append_drop]
    · have h := (parted_perm (leading backward (fun n => !takes n f) near) near [f]).append_right fs
      simpa using h

theorem leapFar_perm (backward : Bool) (takes : α → α → Bool) (near far : List α) :
    let l := leapFar backward takes near far
    (l.taken ++ l.near ++ l.far).Perm (near ++ far) := by
  cases near with
  | nil => simp [leapFar]
  | cons n ns =>
    simp only [leapFar]
    split
    · rename_i h
      rw [List.isEmpty_iff] at h
      have e := List.take_append_drop (leading backward (takes n) far) far
      rw [h, List.append_nil] at e
      rw [e, List.append_nil]
      exact List.perm_append_comm
    · have h := parted_perm (leading backward (takes n) far) far (n :: ns)
      refine List.Perm.trans ?_ (h.trans List.perm_append_comm)
      simp

theorem leap_perm {l : Leap α} {near far r : List α}
    (h : (l.taken ++ l.near ++ l.far).Perm (near ++ far)) (hr : r.Perm (l.near ++ l.far)) :
    (l.taken ++ r).Perm (near ++ far) := by
  refine (hr.append_left l.taken).trans ?_
  rwa [← List.append_assoc]

/-- one of two leaps takes and leaves what there is, if both do -/
theorem leap_of_ite {c : Prop} [Decidable c] {l m : Leap α} {near far : List α}
    (hl : (l.taken ++ l.near ++ l.far).Perm (near ++ far))
    (hm : (m.taken ++ m.near ++ m.far).Perm (near ++ far)) :
    let r := if c then l else m
    (r.taken ++ r.near ++ r.far).Perm (near ++ far) := by
  simp only
  split
  · exact hl
  · exact hm

theorem merging_perm (backward : Bool) (takes : α → α → Bool) (fuel : Nat) :
    (∀ threshold ofNear ofFar near far,
      (stepwise backward takes fuel threshold ofNear ofFar near far).1.Perm (near ++ far)) ∧
    ∀ threshold near far,
      (leaping backward takes fuel threshold near far).1.Perm (near ++ far) := by
  induction fuel with
  | zero =>
    constructor
    · intro threshold ofNear ofFar near far
      rw [stepwise]
      exact List.perm_append_comm
    · intro threshold near far
      rw [leaping]
      exact List.perm_append_comm
  | succ fuel ih =>
    constructor
    · intro threshold ofNear ofFar near far
      rw [stepwise.eq_def]
      split
      · simp_all
      · rename_i h
        obtain rfl := Nat.succ.inj h
        split
        · split
          · refine List.Perm.trans (List.Perm.cons _ ?_) List.perm_middle.symm
            split
            · exact ih.2 ..
            · exact ih.1 ..
          · refine List.Perm.cons _ ?_
            split
            · exact ih.2 ..
            · exact ih.1 ..
        · exact List.perm_append_comm
    · intro threshold near far
      rw [leaping]
      split
      · exact List.perm_append_comm
      · have h1 := leap_of_ite (c := backward = true) (leapFar_perm backward takes near far)
          (leapNear_perm backward takes near far)
        generalize (if backward then leapFar backward takes near far
            else leapNear backward takes near far) = first at h1 ⊢
        simp only
        split
        · rw [List.append_assoc]
          exact leap_perm h1 List.perm_append_comm
        · have h2 := leap_of_ite (c := backward = true)
            (leapNear_perm backward takes first.near first.far)
            (leapFar_perm backward takes first.near first.far)
          generalize (if backward then leapNear backward takes first.near first.far
              else leapFar backward takes first.near first.far) = second at h2 ⊢
          rw [List.append_assoc]
          refine leap_perm h1 (leap_perm h2 ?_)
          split
          · exact List.perm_append_comm
          · split
            · exact ih.2 ..
            · exact ih.1 ..

theorem merge_perm (backward : Bool) (takes : α → α → Bool) (threshold : Nat)
    (near far : List α) : (merge backward takes threshold near far).1.Perm (near ++ far) := by
  cases far with
  | nil => simp [merge]
  | cons f fs =>
    exact (((merging_perm backward takes _).1 ..).cons f).trans List.perm_middle.symm

theorem mergeRuns_perm (lt : α → α → Bool) (threshold : Nat) (a b : List α) :
    (mergeRuns lt threshold a b).1.Perm (a ++ b) := by
  rw [mergeRuns]
  split
  · rename_i least greatest _ _
    have parted : ∀ (front back : Nat) (r : List α), r.Perm (a.drop front ++ b.take back) →
        (a.take front ++ r ++ b.drop back).Perm (a ++ b) := by
      intro front back r h
      have e : a ++ b = a.take front ++ (a.drop front ++ b.take back) ++ b.drop back := by
        rw [← List.append_assoc, List.take_append_drop, List.append_assoc, List.take_append_drop]
      rw [e]
      exact (h.append_left _).append_right _
    simp only
    split
    · exact List.Perm.refl _
    · split
      · exact parted _ _ _ (merge_perm ..)
      · refine parted _ _ _ ((List.reverse_perm _).trans ((merge_perm ..).trans ?_))
        refine List.perm_append_comm.trans ?_
        exact (List.reverse_perm _).append (List.reverse_perm _)
  · exact List.Perm.refl _

end

end Gemfile.Sorting
