import Gemfile.Version.Order
import Mathlib.Tactic.Lemma

/-!
# Precedence as an order

* `Version.numbers v`   the three numbers of a version
* `compareRelease_eq_lt`, `compareRelease_eq_eq`   how the numbers of two versions stand to each other
* `le_iff`              precedence is that of the numbers, and then that of the prereleases
* `le_trans`, `le_antisymm`   precedence is an order, and no two versions stand in one place
* `lt_eq_not_le`        of two versions, the one is below the other or not below it
-/

namespace Gemfile

instance : Std.OrientedCmp Identifier.compare where
  eq_swap {a b} := by
    cases a with
    | number m =>
      cases b with
      | number n => exact Std.OrientedOrd.eq_swap
      | word w => rfl
    | word v =>
      cases b with
      | number n => rfl
      | word w => exact Std.OrientedOrd.eq_swap

lemma Identifier.compare_eq_eq {i j : Identifier} : i.compare j = .eq ↔ i = j := by
  cases i <;> cases j <;> simp [Identifier.compare]

instance : Std.LawfulEqCmp Identifier.compare where
  eq_of_compare h := Identifier.compare_eq_eq.mp h

instance : Std.TransCmp Identifier.compare where
  isLE_trans {i j k} hij hjk := by
    cases i with
    | number l =>
      cases j with
      | number m =>
        cases k with
        | number n => exact @Std.TransCmp.isLE_trans Nat Ord.compare _ l m n hij hjk
        | word y => rfl
      | word x =>
        cases k with
        | number n => cases hjk
        | word y => rfl
    | word x =>
      cases j with
      | number m => cases hij
      | word y =>
        cases k with
        | number n => cases hjk
        | word z => exact @Std.TransCmp.isLE_trans (List Char) Ord.compare _ x y z hij hjk

namespace Version

/-- the numbers of a version, the one that counts most in front -/
def numbers (v : Version) : List Nat := [v.major, v.minor, v.patch]

lemma compareRelease_eq_lt {v w : Version} : compareRelease v w = .lt ↔ v.major < w.major ∨
    v.major = w.major ∧ (v.minor < w.minor ∨ v.minor = w.minor ∧ v.patch < w.patch) := by
  unfold compareRelease
  rw [Ordering.then_eq_lt, Ordering.then_eq_lt, Nat.compare_eq_lt, Nat.compare_eq_lt,
    Nat.compare_eq_lt, Nat.compare_eq_eq, Nat.compare_eq_eq]

lemma compareRelease_eq_eq {v w : Version} : compareRelease v w = .eq ↔ v.numbers = w.numbers := by
  unfold compareRelease numbers
  rw [Ordering.then_eq_eq, Ordering.then_eq_eq, Nat.compare_eq_eq, Nat.compare_eq_eq,
    Nat.compare_eq_eq]
  simp

instance : Std.OrientedCmp compareRelease where
  eq_swap {v w} := by
    unfold compareRelease
    rw [Ordering.swap_then, Ordering.swap_then, ← Std.OrientedOrd.eq_swap, ← Std.OrientedOrd.eq_swap,
      ← Std.OrientedOrd.eq_swap]

lemma comparePrerelease_cons (i j : Identifier) (p q : List Identifier) :
    comparePrerelease (i :: p) (j :: q) =
      List.compareLex Identifier.compare (i :: p) (j :: q) := rfl

instance : Std.OrientedCmp comparePrerelease where
  eq_swap {p q} := by
    cases p with
    | nil => cases q <;> rfl
    | cons i p =>
      cases q with
      | nil => rfl
      | cons j q =>
        rw [comparePrerelease_cons, comparePrerelease_cons]
        exact Std.OrientedCmp.eq_swap

instance : Std.OrientedCmp compare where
  eq_swap {v w} := by
    unfold compare
    rw [Ordering.swap_then, ← Std.OrientedCmp.eq_swap, ← Std.OrientedCmp.eq_swap]

instance : Std.TransCmp compareRelease :=
  inferInstanceAs (Std.TransCmp
    (compareLex (compareOn major) (compareLex (compareOn minor) (compareOn patch))))

instance : Std.TransCmp comparePrerelease where
  isLE_trans {p q r} hpq hqr := by
    cases p with
    | nil =>
      cases q with
      | nil => exact hqr
      | cons j q => cases hpq
    | cons i p =>
      cases r with
      | nil => rfl
      | cons k r =>
        cases q with
        | nil => cases hqr
        | cons j q =>
          rw [comparePrerelease_cons] at hpq hqr ⊢
          exact Std.TransCmp.isLE_trans hpq hqr

lemma comparePrerelease_eq_eq {p q : List Identifier} : comparePrerelease p q = .eq ↔ p = q := by
  cases p with
  | nil => cases q <;> simp [comparePrerelease]
  | cons i p =>
    cases q with
    | nil => simp [comparePrerelease]
    | cons j q => rw [comparePrerelease_cons, Std.LawfulEqCmp.compare_eq_iff_eq]

lemma le_iff {v w : Version} : v.le w = true ↔ compareRelease v w = .lt ∨
    compareRelease v w = .eq ∧ (comparePrerelease v.prerelease w.prerelease).isLE = true := by
  unfold le compare
  exact Ordering.isLE_then_iff_or

lemma lt_iff {v w : Version} : v.lt w = true ↔ compareRelease v w = .lt ∨
    compareRelease v w = .eq ∧ comparePrerelease v.prerelease w.prerelease = .lt := by
  unfold lt compare
  rw [Ordering.isLT_iff_eq_lt, Ordering.then_eq_lt]

lemma le_refl (v : Version) : v.le v = true := by
  show (compare v v).isLE = true
  exact Std.ReflCmp.isLE_rfl

lemma isLE_compareRelease {v w : Version} (h : v.le w = true) :
    (compareRelease v w).isLE = true := by
  rcases le_iff.mp h with h | ⟨h, _⟩
  · rw [h]
    rfl
  · rw [h]
    rfl

theorem le_trans {u v w : Version} (huv : u.le v = true) (hvw : v.le w = true) :
    u.le w = true := by
  rcases le_iff.mp huv with hu | ⟨hu, hp⟩
  · exact le_iff.mpr (.inl (Std.TransCmp.lt_of_lt_of_isLE hu (isLE_compareRelease hvw)))
  · rcases le_iff.mp hvw with hv | ⟨hv, hq⟩
    · exact le_iff.mpr (.inl (Std.TransCmp.lt_of_eq_of_lt hu hv))
    · exact le_iff.mpr (.inr ⟨Std.TransCmp.eq_trans hu hv, Std.TransCmp.isLE_trans hp hq⟩)

instance : Std.TransCmp compare where
  isLE_trans := le_trans

theorem le_antisymm {v w : Version} (hvw : v.le w = true) (hwv : w.le v = true) : v = w := by
  have same : compare v w = .eq := Std.OrientedCmp.isLE_antisymm hvw hwv
  unfold compare at same
  obtain ⟨numbers, prerelease⟩ := Ordering.then_eq_eq.mp same
  have numbers := compareRelease_eq_eq.mp numbers
  have prerelease := comparePrerelease_eq_eq.mp prerelease
  cases v
  cases w
  simp_all [Version.numbers]

lemma lt_of_lt_of_le {u v w : Version} (huv : u.lt v = true) (hvw : v.le w = true) :
    u.lt w = true :=
  Ordering.isLT_iff_eq_lt.mpr (Std.TransCmp.lt_of_lt_of_isLE (Ordering.isLT_iff_eq_lt.mp huv) hvw)

lemma lt_of_le_of_lt {u v w : Version} (huv : u.le v = true) (hvw : v.lt w = true) :
    u.lt w = true :=
  Ordering.isLT_iff_eq_lt.mpr (Std.TransCmp.lt_of_isLE_of_lt huv (Ordering.isLT_iff_eq_lt.mp hvw))

theorem lt_eq_not_le (v w : Version) : v.lt w = !w.le v := by
  have swap : compare v w = (compare w v).swap := Std.OrientedCmp.eq_swap
  unfold lt le
  rw [swap]
  cases compare w v <;> rfl

end Version

end Gemfile
