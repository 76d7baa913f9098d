import Gemfile.Sorting.Merge

/-!
# Sorting by runs

A list is cut into rows that are in order already, short ones are filled up by insertion, and the
rows are merged.  Where all elements have an order, equal ones keep theirs, and the result is the
same whatever way it is found; where some are neither before nor behind any other, it is this way
that says where they go.

* `Sorting.firstRun`   the row in order at the start of a list, and the rest
* `Sorting.insert`     one more element in a row
* `Sorting.byRuns`     a list in order
* `byRuns_perm`        no element is lost or added
-/

namespace Gemfile.Sorting

section
variable {α : Type}

/-- the elements in front of which each one follows the one before it, beginning behind `x` -/
def chain (follows : α → α → Bool) (x : α) : List α → List α × List α
  | [] => ([], [])
  | y :: ys =>
    if follows x y then
      let t := chain follows y ys
      (y :: t.1, t.2)
    else ([], y :: ys)

/-- the longest row at the start of a list in which no element is before the one in front of it, or
else every one is, which is turned round -/
def firstRun (lt : α → α → Bool) : List α → List α × List α
  | x :: y :: ys =>
    if lt y x then
      let t := chain (fun a b => lt b a) y ys
      ((x :: y :: t.1).reverse, t.2)
    else
      let t := chain (fun a b => !lt b a) y ys
      (x :: y :: t.1, t.2)
  | xs => (xs, [])

/-- a row with one more element, behind those that are not behind it -/
def insert (lt : α → α → Bool) (xs : List α) (x : α) : List α :=
  let row := xs.toArray
  let place := bisect (fun i => !row[i]?.any (lt x)) 0 row.size
  xs.take place ++ x :: xs.drop place

/-- shorter lists are sorted by insertion alone -/
def mergedFrom : Nat := 64

/-- the least length of a row: `n` halved until it is below `mergedFrom`, and one more if anything
was left over -/
def leastRun (n more : Nat) : Nat :=
  if mergedFrom ≤ n then leastRun (n / 2) (max more (n % 2)) else n + more
termination_by n
decreasing_by simp [mergedFrom] at *; omega

/-- the first row of a list, filled up to a least length, and the rest -/
def filledRun (lt : α → α → Bool) (least : Nat) (xs : List α) : List α × List α :=
  let t := firstRun lt xs
  let more := least - t.1.length
  ((t.2.take more).foldl (insert lt) t.1, t.2.drop more)

/-- the first binary place at which `a / n` and `b / n` differ, within `fuel` places -/
def placeApart (n : Nat) : Nat → Nat → Nat → Nat
  | 0, _, _ => 0
  | fuel + 1, a, b =>
    if n ≤ a then 1 + placeApart n fuel (2 * (a - n)) (2 * (b - n))
    else if n ≤ b then 1
    else 1 + placeApart n fuel (2 * a) (2 * b)

/-- how deep the cut between two rows is among `n` elements, of which `start` come before them: the
place at which the middles of the rows differ -/
def depth (n start first second : Nat) : Nat :=
  placeApart n n (2 * start + first) (2 * start + 2 * first + second)

/-- rows that wait to be merged, the last one first, each with the depth of the cut behind it -/
abbrev Waiting (α : Type) := List (Nat × List α)

def elements (w : Waiting α) : List α := (w.reverse.map Prod.snd).flatten

def size (w : Waiting α) : Nat := (elements w).length

/-- merges a row with those before it whose cuts are deeper than `cut` -/
def absorb (lt : α → α → Bool) (cut threshold : Nat) (row : List α) :
    Waiting α → Merged α × Waiting α
  | [] => ((row, threshold), [])
  | r :: w =>
    if cut < r.1 then
      let m := mergeRuns lt threshold r.2 row
      absorb lt cut m.2 m.1 w
    else ((row, threshold), r :: w)

def push (lt : α → α → Bool) (n threshold : Nat) (row : List α) (w : Waiting α) :
    Waiting α × Nat :=
  match w with
  | [] => ([(0, row)], threshold)
  | last :: w =>
    let cut := depth n (size w) last.2.length row.length
    let t := absorb lt cut threshold last.2 w
    ((0, row) :: (cut, t.1.1) :: t.2, t.1.2)

/-- the rows that wait as one: each time the last two, or the two before the last one if the first
of these is shorter than the last one; `fuel` bounds the merges -/
def collapse (lt : α → α → Bool) : Nat → Nat → Waiting α → List α
  | _, _, [] => []
  | _, _, [r] => r.2
  | 0, _, w => elements w
  | fuel + 1, threshold, x :: y :: z :: w =>
    if z.2.length < x.2.length then
      let m := mergeRuns lt threshold z.2 y.2
      collapse lt fuel m.2 (x :: (z.1, m.1) :: w)
    else
      let m := mergeRuns lt threshold y.2 x.2
      collapse lt fuel m.2 ((y.1, m.1) :: z :: w)
  | _ + 1, threshold, [x, y] => (mergeRuns lt threshold y.2 x.2).1

/-- the rows of a list behind those that wait; `fuel` bounds their number -/
def waitingFrom (lt : α → α → Bool) (n least : Nat) :
    Nat → Nat → Waiting α → List α → Waiting α × Nat
  | 0, threshold, w, _ => (w, threshold)
  | fuel + 1, threshold, w, xs =>
    if xs.isEmpty then (w, threshold)
    else
      let t := filledRun lt least xs
      let v := push lt n threshold t.1 w
      waitingFrom lt n least fuel v.2 v.1 t.2

def byRuns (lt : α → α → Bool) (xs : List α) : List α :=
  let n := xs.length
  let t := waitingFrom lt n (leastRun n 0) n worthGalloping [] xs
  collapse lt t.1.length t.2 t.1

theorem chain_append (follows : α → α → Bool) (x : α) (xs : List α) :
    (chain follows x xs).1 ++ (chain follows x xs).2 = xs := by
  induction xs generalizing x with
  | nil => rfl
  | cons y ys ih =>
    rw [chain]
    split
    · simp [ih]
    · rfl

theorem firstRun_perm (lt : α → α → Bool) (xs : List α) :
    ((firstRun lt xs).1 ++ (firstRun lt xs).2).Perm xs := by
  match xs with
  | [] => exact List.Perm.refl _
  | [x] => exact List.Perm.refl _
  | x :: y :: ys =>
    rw [firstRun]
    split
    · refine ((List.reverse_perm _).append_right _).trans ?_
      simp [chain_append]
    · simp [chain_append]

theorem insert_perm (lt : α → α → Bool) (xs : List α) (x : α) :
    (insert lt xs x).Perm (xs ++ [x]) := by
  have h := parted_perm (bisect (fun i => !xs.toArray[i]?.any (lt x)) 0 xs.toArray.size) xs [x]
  simpa [insert] using h

theorem foldl_insert_perm (lt : α → α → Bool) (xs more : List α) :
    (more.foldl (insert lt) xs).Perm (xs ++ more) := by
  induction more generalizing xs with
  | nil => simp
  | cons x more ih =>
    refine (ih _).trans (((insert_perm lt xs x).append_right more).trans ?_)
    simp

theorem filledRun_perm (lt : α → α → Bool) (least : Nat) (xs : List α) :
    ((filledRun lt least xs).1 ++ (filledRun lt least xs).2).Perm xs := by
  refine List.Perm.trans ((foldl_insert_perm ..).append_right _) ?_
  rw [List.append_assoc, filledRun, List.take_append_drop]
  exact firstRun_perm lt xs

theorem elements_cons (r : Nat × List α) (w : Waiting α) :
    elements (r :: w) = elements w ++ r.2 := by
  simp [elements]

theorem absorb_perm (lt : α → α → Bool) (cut threshold : Nat) (row : List α) (w : Waiting α) :
    (elements (absorb lt cut threshold row w).2 ++ (absorb lt cut threshold row w).1.1).Perm
      (elements w ++ row) := by
  induction w generalizing threshold row with
  | nil => exact List.Perm.refl _
  | cons r w ih =>
    rw [absorb]
    split
    · refine (ih ..).trans ?_
      rw [elements_cons, List.append_assoc]
      exact (mergeRuns_perm ..).append_left _
    · exact List.Perm.refl _

theorem push_perm (lt : α → α → Bool) (n threshold : Nat) (row : List α) (w : Waiting α) :
    (elements (push lt n threshold row w).1).Perm (elements w ++ row) := by
  cases w with
  | nil => simp [push, elements]
  | cons last w =>
    simp only [push, elements_cons]
    exact (absorb_perm ..).append_right row

theorem collapse_perm (lt : α → α → Bool) (fuel threshold : Nat) (w : Waiting α) :
    (collapse lt fuel threshold w).Perm (elements w) := by
  fun_induction collapse lt fuel threshold w with
  | case1 => exact List.Perm.refl _
  | case2 => simp [elements]
  | case3 => exact List.Perm.refl _
  | case4 fuel threshold x y z w h m ih =>
    refine ih.trans ?_
    simp only [elements_cons, List.append_assoc]
    refine List.Perm.append_left _ ?_
    rw [← List.append_assoc]
    exact (mergeRuns_perm ..).append_right _
  | case5 fuel threshold x y z w h m ih =>
    refine ih.trans ?_
    simp only [elements_cons, List.append_assoc]
    exact ((mergeRuns_perm ..).append_left _).append_left _
  | case6 =>
    simp only [elements_cons]
    exact mergeRuns_perm ..

theorem length_filledRun (lt : α → α → Bool) (least : Nat) {xs : List α} (h : xs ≠ []) :
    (filledRun lt least xs).2.length < xs.length := by
  have e := (filledRun_perm lt least xs).length_eq
  have p : 0 < (filledRun lt least xs).1.length := by
    have f := (foldl_insert_perm lt (firstRun lt xs).1
      ((firstRun lt xs).2.take (least - (firstRun lt xs).1.length))).length_eq
    have q : 0 < (firstRun lt xs).1.length := by
      match xs, h with
      | [x], _ => exact Nat.one_pos
      | x :: y :: ys, _ =>
        rw [firstRun]
        split <;> simp
    rw [List.length_append] at f
    simp only [filledRun]
    omega
  rw [List.length_append] at e
  omega

theorem waitingFrom_perm (lt : α → α → Bool) (n least fuel threshold : Nat) (w : Waiting α)
    {xs : List α} (h : xs.length ≤ fuel) :
    (elements (waitingFrom lt n least fuel threshold w xs).1).Perm (elements w ++ xs) := by
  induction fuel generalizing threshold w xs with
  | zero =>
    obtain rfl := List.eq_nil_of_length_eq_zero (Nat.le_zero.mp h)
    simp [waitingFrom]
  | succ fuel ih =>
    rw [waitingFrom]
    split
    · simp_all
    · rename_i hx
      have l := length_filledRun lt least (mt List.isEmpty_iff.mpr hx)
      refine (ih _ _ (by omega)).trans (((push_perm ..).append_right _).trans ?_)
      rw [List.append_assoc]
      exact (filledRun_perm ..).append_left _

theorem byRuns_perm (lt : α → α → Bool) (xs : List α) : (byRuns lt xs).Perm xs :=
  (collapse_perm ..).trans (waitingFrom_perm lt _ _ _ _ [] (Nat.le_refl _))

end

end Gemfile.Sorting
