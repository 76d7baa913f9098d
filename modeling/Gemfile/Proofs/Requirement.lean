import Gemfile.Proofs.Requirement.Spelled

/-!
# Signs and the versions that they admit

* `Requirement.signed s r`        the sign `s` in front of the text `r`
* `Requirement.ofValue_signed`, `Dependency.ofValues_signed`   it is a requirement if `r` spells a version,
                                  with the clauses of the sign
* `Version.PrereleaseOf w v`      the only versions that two signs leave out against precedence
* `complementary`                 so opposite signs admit each version exactly once, but for these
-/

namespace Gemfile

namespace Requirement

/-- a sign, a blank and a text, such as `~> 1.2` -/
def signed (s : Sign) (r : String) : String := s.text ++ " " ++ r

lemma toList_signed (s : Sign) (r : String) :
    (signed s r).toList = s.text.toList ++ ' ' :: r.toList := by
  unfold signed
  rw [String.toList_append, String.toList_append, List.append_assoc]
  rfl

theorem ofValue_signed (s : Sign) {r : String} {v : Version}
    (hr : Version.ofValue (.str r) = .ok v) : ofValue (.str (signed s r)) =
      .ok ⟨signed s r, clausesOf s (Text.strip r.toList) v⟩ := by
  obtain ⟨hw, rfl⟩ := Version.read?_eq_some.mp (Version.ofValue_eq_ok.mp hr)
  obtain ⟨p, q, hp, hq, blanks⟩ := Text.exists_strip r.toList
  have parts : (signed s r).toList =
      [] ++ s.text.toList ++ ' ' :: p ++ Text.strip r.toList ++ q := by
    rw [toList_signed, List.nil_append]
    conv_lhs => rw [blanks]
    simp
  refine ofValue_of_spelled ?_ (Version.read?_of_wellFormed hw)
  rw [parts]
  exact .mk (fun x hx => absurd hx List.not_mem_nil) (.sign s) (List.forall_mem_cons.mpr ⟨rfl, hp⟩)
    ((Version.wellFormed_iff _).mp hw) hq

end Requirement

namespace Dependency

theorem ofValues_signed (name : Value) (s : Requirement.Sign) {r : String} {v : Version}
    (hr : Version.ofValue (.str r) = .ok v) :
    ofValues name [.str (Requirement.signed s r)] = .ok ⟨name, [⟨Requirement.signed s r,
      Requirement.clausesOf s (Text.strip r.toList) v⟩]⟩ := by
  unfold ofValues requirementsOf
  rw [Requirement.ofValue_signed s hr]
  rfl

lemma admits_one (name : Value) {r : Requirement} (h : r.clauses ≠ []) (w : Version) :
    admits ⟨name, [r]⟩ w = r.clauses.all (·.admits w) := by
  have hc : clauses ⟨name, [r]⟩ = r.clauses := List.append_nil _
  unfold admits Gemfile.admits
  rw [hc, if_neg (by simpa using h)]

end Dependency

namespace Version

/-- `w` is a prerelease, and `v` the release that it comes before -/
def PrereleaseOf (w v : Version) : Prop :=
  w.prerelease ≠ [] ∧ v.prerelease = [] ∧ w.numbers = v.numbers

lemma prereleaseOf_iff (w v : Version) : Clause.prereleaseOf w v = true ↔ w.PrereleaseOf v := by
  cases w with
  | mk a b c p =>
    cases v with
    | mk a' b' c' p' =>
      unfold Clause.prereleaseOf PrereleaseOf isPrerelease release numbers
      cases p' <;> simp

lemma PrereleaseOf.lt {w v : Version} (h : w.PrereleaseOf v) : w.lt v = true := by
  obtain ⟨hw, hv, hn⟩ := h
  refine lt_iff.mpr (.inr ⟨compareRelease_eq_eq.mpr hn, ?_⟩)
  rw [hv]
  cases hp : w.prerelease with
  | nil => exact absurd hp hw
  | cons i p => rfl

lemma PrereleaseOf.ne {w v : Version} (h : w.PrereleaseOf v) : w ≠ v := by
  rintro rfl
  exact h.1 h.2.1

end Version

namespace Clause
variable (v w : Version)

lemma equal_eq_not_unlike :
    admits ⟨.equal, v⟩ w = !admits ⟨.unlike, v⟩ w ↔ ¬ w.PrereleaseOf v := by
  show decide (w = v) = !(!prereleaseOf w v && decide (w ≠ v)) ↔ _
  rw [← Version.prereleaseOf_iff]
  by_cases h : prereleaseOf w v = true
  · have := ((Version.prereleaseOf_iff w v).mp h).ne
    simp [h, this]
  · simp [h]

lemma below_eq_not_atLeast :
    admits ⟨.below, v⟩ w = !admits ⟨.atLeast, v⟩ w ↔ ¬ w.PrereleaseOf v := by
  show (!prereleaseOf w v && w.lt v) = !v.le w ↔ _
  rw [← Version.lt_eq_not_le, ← Version.prereleaseOf_iff]
  by_cases h : prereleaseOf w v = true
  · have := ((Version.prereleaseOf_iff w v).mp h).lt
    simp [h, this]
  · simp [h]

lemma above_eq_not_atMost : admits ⟨.above, v⟩ w = !admits ⟨.atMost, v⟩ w :=
  Version.lt_eq_not_le v w

end Clause

namespace Dependency

/-- Opposite signs are requirements on a gem, and each version satisfies exactly one of `=` and `!=`,
exactly one of `<` and `>=`, and exactly one of `>` and `<=`; but `!=` and `<` in front of a release
leave out its prereleases, which `=` and `>=` do not admit either -/
theorem complementary (name : Value) {r : String} {v : Version}
    (hr : Version.ofValue (.str r) = .ok v) :
    ∃ d : Comparison → Dependency,
      (∀ c, ofValues name [.str (Requirement.signed (.compare c) r)] = .ok (d c)) ∧
      ∀ w, ((d .equal).admits w = !(d .unlike).admits w ↔ ¬ w.PrereleaseOf v) ∧
        ((d .below).admits w = !(d .atLeast).admits w ↔ ¬ w.PrereleaseOf v) ∧
        (d .above).admits w = !(d .atMost).admits w := by
  refine ⟨_, fun c => ofValues_signed name (.compare c) hr, fun w => ?_⟩
  have admits (c : Comparison) : Dependency.admits ⟨name, [⟨Requirement.signed (.compare c) r,
      Requirement.clausesOf (.compare c) (Text.strip r.toList) v⟩]⟩ w = Clause.admits ⟨c, v⟩ w := by
    rw [admits_one name (List.cons_ne_nil _ _)]
    exact Bool.and_true _
  simp only [admits]
  exact ⟨Clause.equal_eq_not_unlike v w, Clause.below_eq_not_atLeast v w,
    Clause.above_eq_not_atMost v w⟩

/-- below a prerelease, versions are told apart by precedence only -/
theorem complementary_prerelease :
    Version.ofValue (.str "1.0.b") = .ok ⟨1, 0, 0, [.word ['b']]⟩ ∧
      ∃ d : Comparison → Dependency,
        (∀ c, ofValues (.str "a") [.str (Requirement.signed (.compare c) "1.0.b")] = .ok (d c)) ∧
        (d .equal).admits ⟨1, 0, 0, [.word ['a']]⟩ = !(d .unlike).admits ⟨1, 0, 0, [.word ['a']]⟩ ∧
        (d .below).admits ⟨1, 0, 0, [.word ['a']]⟩ = !(d .atLeast).admits ⟨1, 0, 0, [.word ['a']]⟩ := by
  have hr : Version.ofValue (.str "1.0.b") = .ok ⟨1, 0, 0, [.word ['b']]⟩ := by decide +kernel
  obtain ⟨d, hd, h⟩ := complementary (.str "a") hr
  have hp : ¬ Version.PrereleaseOf ⟨1, 0, 0, [.word ['a']]⟩ ⟨1, 0, 0, [.word ['b']]⟩ :=
    fun h => absurd h.2.1 (List.cons_ne_nil _ _)
  obtain ⟨h1, h2, _⟩ := h ⟨1, 0, 0, [.word ['a']]⟩
  exact ⟨hr, d, hd, h1.mpr hp, h2.mpr hp⟩

/-- the prerelease `1.0.rc1` is neither equal to `1.0` nor unlike it, neither below it nor at least it -/
theorem not_complementary :
    let admitted (requirement : String) : Except RequirementFault Bool := do
      let d ← ofValues (.str "a") [.str requirement]
      let w ← Version.ofValue (.str "1.0.rc1")
      return d.admits w
    admitted "= 1.0" = .ok false ∧ admitted "!= 1.0" = .ok false ∧
      admitted "< 1.0" = .ok false ∧ admitted ">= 1.0" = .ok false := by
  decide +kernel

end Dependency

end Gemfile
