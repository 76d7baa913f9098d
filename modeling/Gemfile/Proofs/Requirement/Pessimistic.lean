import Gemfile.Proofs.Requirement
import Mathlib.Data.List.GetD

/-!
# The pessimistic sign

`~> r` asks for at least `r`, and for less than the numbers of `r` without the last one, with one more
in the last place that is left.

* `held release`           how many numbers are left
* `getD_bump`              the numbers of the upper bound
* `Clause.admits_below`    a version is below a release if its numbers are
* `below_bound_iff`        of the versions from `r` on, those below the bound share the numbers held,
                           as long as these are no more than a version has
* `not_below_bound`        beyond that the bound has the numbers of `r` itself, and nothing is below it
* `Dependency.pessimistic_admits`, `Dependency.pessimistic_admits_own`   so this is what gems ask for
-/

namespace Gemfile

namespace Requirement
variable {release : List Nat}

/-- how many numbers of a release the pessimistic sign holds on to: all but the last, at least one -/
def held (release : List Nat) : Nat := max 1 (release.length - 1)

lemma bump_eq (h : release ≠ []) : bump release =
    release.take (held release - 1) ++ [release.getD (held release - 1) 0 + 1] := by
  cases release with
  | nil => exact absurd rfl h
  | cons m ms =>
    cases ms with
    | nil => rfl
    | cons n ns =>
      have all : held (m :: n :: ns) = ns.length + 1 := by simp [held]
      have kept : (m :: n :: ns).dropLast.dropLast = (m :: n :: ns).take ns.length := by
        rw [List.dropLast_eq_take, List.dropLast_eq_take, List.take_take]
        simp
      have last : (m :: n :: ns).dropLast.getLastD 0 = (m :: n :: ns).getD ns.length 0 := by
        rw [List.getLastD_eq_getLast?, List.getLast?_eq_getElem?, List.getD_eq_getElem?_getD,
          List.length_dropLast, List.getElem?_dropLast]
        simp
      rw [all, Nat.add_sub_cancel, ← kept, ← last]
      rfl

lemma getD_bump (h : release ≠ []) (i : Nat) : (bump release).getD i 0 =
    if i + 1 < held release then release.getD i 0
    else if i + 1 = held release then release.getD i 0 + 1 else 0 := by
  have bound : 1 ≤ held release ∧ held release ≤ release.length := by
    have := List.length_pos_iff.mpr h
    unfold held
    omega
  have length : (release.take (held release - 1)).length = held release - 1 := by
    rw [List.length_take]
    omega
  rw [bump_eq h]
  by_cases h1 : i + 1 < held release
  · rw [if_pos h1, List.getD_append _ _ _ _ (by omega), List.getD_eq_getElem?_getD,
      List.getD_eq_getElem?_getD, List.getElem?_take_of_lt (by omega)]
  · rw [if_neg h1, List.getD_append_right _ _ _ _ (by omega), length]
    by_cases h2 : i + 1 = held release
    · obtain rfl : i = held release - 1 := by omega
      rw [if_pos h2, Nat.sub_self]
      rfl
    · rw [if_neg h2, List.getD_eq_default _ _ (by rw [List.length_singleton]; omega)]

end Requirement

lemma Clause.admits_below {t w : Version} (ht : t.prerelease = []) :
    admits ⟨.below, t⟩ w = true ↔ Version.compareRelease w t = .lt := by
  show (!prereleaseOf w t && w.lt t) = true ↔ _
  rw [Bool.and_eq_true, Bool.not_eq_true', ← Bool.not_eq_true, Version.prereleaseOf_iff, Version.lt_iff]
  constructor
  · rintro ⟨hn, h | ⟨he, hp⟩⟩
    · exact h
    · refine absurd ⟨?_, ht, Version.compareRelease_eq_eq.mp he⟩ hn
      intro hw
      rw [hw, ht] at hp
      cases hp
  · intro h
    refine ⟨fun hp => ?_, .inl h⟩
    rw [Version.compareRelease_eq_eq.mpr hp.2.2] at h
    cases h

namespace Requirement
variable {release : List Nat} {prerelease : List Identifier} {w : Version}

lemma below_bound_iff (h : release ≠ []) (hn : release.length ≤ 4)
    (hw : (Version.ofRelease release prerelease).le w = true) :
    Version.compareRelease w (Version.ofRelease (bump release) []) = .lt ↔
      w.numbers.take (held release) =
        (Version.ofRelease release prerelease).numbers.take (held release) := by
  have h0 : (Version.ofRelease (bump release) []).major = _ := getD_bump h 0
  have h1 : (Version.ofRelease (bump release) []).minor = _ := getD_bump h 1
  have h2 : (Version.ofRelease (bump release) []).patch = _ := getD_bump h 2
  -- precedence only leaves versions whose numbers are not below those of the release
  have low := (Version.le_iff.mp hw).imp_right And.left
  rw [Version.compareRelease_eq_lt, Version.compareRelease_eq_eq] at low
  rw [Version.compareRelease_eq_lt, h0, h1, h2]
  unfold Version.numbers Version.ofRelease at *
  have count : held release = 1 ∨ held release = 2 ∨ held release = 3 := by
    unfold held
    omega
  rcases count with hc | hc | hc <;> simp [hc] at low ⊢ <;> omega

lemma not_below_bound (h : release ≠ []) (hn : 4 < release.length)
    (hw : (Version.ofRelease release prerelease).le w = true) :
    ¬ Version.compareRelease w (Version.ofRelease (bump release) []) = .lt := by
  have count : 3 < held release := by
    unfold held
    omega
  have h0 : (Version.ofRelease (bump release) []).major = _ := getD_bump h 0
  have h1 : (Version.ofRelease (bump release) []).minor = _ := getD_bump h 1
  have h2 : (Version.ofRelease (bump release) []).patch = _ := getD_bump h 2
  rw [if_pos (by omega)] at h0 h1 h2
  have low := (Version.le_iff.mp hw).imp_right And.left
  rw [Version.compareRelease_eq_lt, Version.compareRelease_eq_eq] at low
  rw [Version.compareRelease_eq_lt, h0, h1, h2]
  unfold Version.numbers Version.ofRelease at low
  simp only [List.cons.injEq, and_true] at low
  omega

end Requirement

namespace Dependency
open Requirement (signed held bump)

/-- A gem with a pessimistic requirement, and what it admits -/
lemma exists_pessimistic (name : Value) {r : String} {v : Version}
    (hr : Version.ofValue (.str r) = .ok v) :
    ∃ d, ofValues name [.str (signed .pessimistic r)] = .ok d ∧
      ∀ w, d.admits w = true ↔ v.le w = true ∧
        Version.compareRelease w (Version.ofRelease (bump (Version.numbersIn r)) []) = .lt := by
  refine ⟨_, ofValues_signed name .pessimistic hr, fun w => ?_⟩
  rw [admits_one name (List.cons_ne_nil _ _)]
  show (v.le w && (Clause.admits ⟨.below, _⟩ w && true)) = true ↔ _
  rw [Bool.and_true, Bool.and_eq_true, Clause.admits_below rfl]
  rfl

/-- Up to four numbers, the pessimistic sign admits what is not below the version behind it and has the
same numbers but for the last one written; at least the first has to be the same -/
theorem pessimistic_admits (name : Value) {r : String} {v : Version}
    (hr : Version.ofValue (.str r) = .ok v) (hn : (Version.numbersIn r).length ≤ 4) :
    ∃ d, ofValues name [.str (signed .pessimistic r)] = .ok d ∧
      ∀ w, d.admits w = true ↔ v.le w = true ∧
        w.numbers.take (max 1 ((Version.numbersIn r).length - 1)) =
          v.numbers.take (max 1 ((Version.numbersIn r).length - 1)) := by
  obtain ⟨d, hd, h⟩ := exists_pessimistic name hr
  refine ⟨d, hd, fun w => (h w).trans (and_congr_right fun hw => ?_)⟩
  rw [Version.ofRelease_numbersIn hr] at hw ⊢
  exact Requirement.below_bound_iff (Version.numbersIn_ne_nil hr) hn hw

/-- four numbers and a prerelease: all of the three numbers are held -/
theorem pessimistic_admits_fourth :
    Version.ofValue (.str "1.2.3.4.rc1") = .ok ⟨1, 2, 3, [.word ['r', 'c'], .number 1]⟩ ∧
      (Version.numbersIn "1.2.3.4.rc1").length ≤ 4 ∧
      ∃ d, ofValues (.str "a") [.str "~> 1.2.3.4.rc1"] = .ok d ∧
        d.admits ⟨1, 2, 3, []⟩ = true ∧ ¬ d.admits ⟨1, 2, 4, []⟩ = true := by
  have hr : Version.ofValue (.str "1.2.3.4.rc1") = .ok ⟨1, 2, 3, [.word ['r', 'c'], .number 1]⟩ := by
    decide +kernel
  have hn : (Version.numbersIn "1.2.3.4.rc1").length ≤ 4 := by decide +kernel
  obtain ⟨d, hd, h⟩ := pessimistic_admits (.str "a") hr hn
  refine ⟨hr, hn, d, hd, (h _).mpr (by decide +kernel), fun hw => ?_⟩
  exact absurd ((h _).mp hw).2 (by decide +kernel)

/-- The pessimistic sign in front of a version makes a requirement, and this admits the version itself
if it has up to four numbers in front of its first word; with more of them, it admits nothing at all -/
theorem pessimistic_admits_own (name : Value) {r : String} {v : Version}
    (hr : Version.ofValue (.str r) = .ok v) :
    ∃ d, ofValues name [.str (signed .pessimistic r)] = .ok d ∧
      (d.admits v = true ↔ (Version.numbersIn r).length ≤ 4) ∧
      ((∃ w, d.admits w = true) ↔ (Version.numbersIn r).length ≤ 4) := by
  obtain ⟨d, hd, h⟩ := exists_pessimistic name hr
  have hne := Version.numbersIn_ne_nil hr
  have own (hn : (Version.numbersIn r).length ≤ 4) : d.admits v = true := by
    have hv := Version.le_refl v
    refine (h v).mpr ⟨hv, ?_⟩
    rw [Version.ofRelease_numbersIn hr] at hv ⊢
    exact (Requirement.below_bound_iff hne hn hv).mpr rfl
  have few {w : Version} (hw : d.admits w = true) : (Version.numbersIn r).length ≤ 4 := by
    obtain ⟨low, below⟩ := (h w).mp hw
    rw [Version.ofRelease_numbersIn hr] at low
    by_contra hn
    exact Requirement.not_below_bound hne (by omega) low below
  exact ⟨d, hd, ⟨few, own⟩, fun ⟨_, hw⟩ => few hw, fun hn => ⟨v, own hn⟩⟩

theorem pessimistic_admits_own_word :
    Version.ofValue (.str "1.2.3.4.a") = .ok ⟨1, 2, 3, [.word ['a']]⟩ ∧
      ∃ d, ofValues (.str "a") [.str "~> 1.2.3.4.a"] = .ok d ∧
        d.admits ⟨1, 2, 3, [.word ['a']]⟩ = true := by
  have hr : Version.ofValue (.str "1.2.3.4.a") = .ok ⟨1, 2, 3, [.word ['a']]⟩ := by decide +kernel
  obtain ⟨d, hd, h, _⟩ := pessimistic_admits_own (.str "a") hr
  exact ⟨hr, d, hd, h.mpr (by decide +kernel)⟩

/-- with a fifth number, the upper bound is the version itself -/
theorem not_admits_own_fifth :
    let admitted (requirement version : String) : Except RequirementFault Bool := do
      let d ← ofValues (.str "a") [.str requirement]
      let w ← Version.ofValue (.str version)
      return d.admits w
    admitted "~> 1.2.3.4.5" "1.2.3.4.5" = .ok false := by
  decide +kernel

end Dependency

end Gemfile
