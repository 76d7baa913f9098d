import Gemfile.Proofs.Requirement.Pessimistic

/-!
# Requirements admit what lies between

* `Clause.admits_below_of_le`   what is not above an admitted version is below the bound too, prereleases
                                of the bound or not
* `Clause.admits_of_between`    each clause admits what lies between two versions that it admits, unless
                                it is unlike a version
* `Requirement.unlike_of_mem`   only a requirement that begins with `!=` has such a clause
* `Dependency.admits_between`   so do all the requirements on a gem together, and so does none at all
-/

namespace Gemfile

namespace Clause
variable {u v w t : Version}

lemma admits_below_iff : admits ⟨.below, t⟩ w = true ↔ ¬ w.PrereleaseOf t ∧ w.lt t = true := by
  show (!prereleaseOf w t && w.lt t) = true ↔ _
  rw [Bool.and_eq_true, Bool.not_eq_true', ← Bool.not_eq_true, Version.prereleaseOf_iff]

/-- a prerelease of the bound is not below it, but neither is anything from there on up to the bound -/
lemma admits_below_of_le (hvw : v.le w = true) (hw : admits ⟨.below, t⟩ w = true) :
    admits ⟨.below, t⟩ v = true := by
  by_cases ht : t.prerelease = []
  · rw [admits_below ht] at hw ⊢
    exact Std.TransCmp.lt_of_isLE_of_lt (Version.isLE_compareRelease hvw) hw
  · rw [admits_below_iff] at hw ⊢
    exact ⟨fun hp => ht hp.2.1, Version.lt_of_le_of_lt hvw hw.2⟩

theorem admits_of_between {c : Clause} (hc : c.comparison ≠ .unlike) (huv : u.le v = true)
    (hvw : v.le w = true) (hu : c.admits u = true) (hw : c.admits w = true) : c.admits v = true := by
  obtain ⟨k, t⟩ := c
  cases k with
  | equal =>
    obtain rfl : u = t := of_decide_eq_true hu
    obtain rfl : w = u := of_decide_eq_true hw
    exact decide_eq_true (Version.le_antisymm hvw huv)
  | unlike => exact absurd rfl hc
  | atLeast => exact Version.le_trans hu huv
  | atMost => exact Version.le_trans hvw hw
  | above => exact Version.lt_of_lt_of_le hu huv
  | below => exact admits_below_of_le hvw hw

end Clause

namespace Requirement

lemma unlike_of_mem {t : String} {r : Requirement} (h : ofValue (.str t) = .ok r) {c : Clause}
    (hc : c ∈ r.clauses) (hk : c.comparison = .unlike) : ['!', '='] <+: Text.strip t.toList := by
  obtain ⟨s, v, V, hs, -, rfl⟩ := spelled_of_ofValue h
  have mark : s = .compare .unlike := by
    cases s with
    | compare k =>
      obtain rfl := List.mem_singleton.mp hc
      exact congrArg Sign.compare hk
    | pessimistic =>
      rcases List.mem_pair.mp hc with rfl | rfl
      · cases hk
      · cases hk
  obtain ⟨rest, hsign, -⟩ := sign_of_spelled hs
  obtain ⟨m, hm, parts⟩ := sign_written (Text.strip t.toList)
  rw [hsign, mark] at hm parts
  rw [parts]
  cases hm
  have sign : (Sign.compare .unlike).text.toList = ['!', '='] := by decide +kernel
  exact ⟨rest, by rw [sign]⟩

end Requirement

namespace Dependency
variable {name : Value} {xs : List Value} {d : Dependency} {u v w : Version}

lemma mem_requirementsOf {rs : List Requirement} (h : requirementsOf xs = .ok rs) :
    ∀ r ∈ rs, ∃ x ∈ xs, Requirement.ofValue x = .ok r := by
  induction xs generalizing rs with
  | nil =>
    cases h
    exact fun r hr => absurd hr List.not_mem_nil
  | cons x xs ih =>
    obtain ⟨r, hr, h⟩ := bind_eq_ok.mp h
    obtain ⟨rs', hrs, h⟩ := bind_eq_ok.mp h
    cases h
    rw [List.forall_mem_cons]
    refine ⟨⟨x, List.mem_cons_self, hr⟩, fun r' hr' => ?_⟩
    obtain ⟨y, hy, hr'⟩ := ih hrs r' hr'
    exact ⟨y, List.mem_cons_of_mem _ hy, hr'⟩

lemma comparison_ne_unlike (h : ofValues name xs = .ok d)
    (hx : ∀ t, .str t ∈ xs → ¬ ['!', '='] <+: Text.strip t.toList) :
    ∀ c ∈ d.clauses, c.comparison ≠ .unlike := by
  obtain ⟨rs, hrs, h⟩ := bind_eq_ok.mp h
  cases h
  intro c hc hk
  obtain ⟨r, hr, hc⟩ := List.mem_flatMap.mp hc
  obtain ⟨x, hm, hr⟩ := mem_requirementsOf hrs r hr
  obtain ⟨t, s, v, rfl, -⟩ := (Requirement.exists_ofValue_iff x).mp ⟨r, hr⟩
  exact hx t hm (Requirement.unlike_of_mem hr hc hk)

/-- **Requirements select intervals.**  Requirements none of which begins with `!=` admit each version
between two that they admit; that there is none is the case `xs = []` -/
theorem admits_between (h : ofValues name xs = .ok d)
    (hx : ∀ t, .str t ∈ xs → ¬ ['!', '='] <+: Text.strip t.toList) (huv : u.le v = true)
    (hvw : v.le w = true) (hu : d.admits u = true) (hw : d.admits w = true) : d.admits v = true := by
  have unlike := comparison_ne_unlike h hx
  cases he : d.clauses.isEmpty with
  | true =>
    have any (x : Version) : d.admits x = anyVersion.admits x := if_pos he
    rw [any] at *
    exact Clause.admits_of_between (by decide) huv hvw hu hw
  | false =>
    have each (x : Version) : d.admits x = true ↔ ∀ c ∈ d.clauses, c.admits x = true := by
      unfold admits Gemfile.admits
      rw [he, if_neg Bool.false_ne_true, List.all_eq_true]
    rw [each] at *
    exact fun c hc => Clause.admits_of_between (unlike c hc) huv hvw (hu c hc) (hw c hc)

/-- `~> 1.2.a` and `< 2.0` admit `1.2.b` and `1.3.a`, and so the release `1.2` between these -/
theorem admits_between_release :
    ∃ d, ofValues (.str "a") [.str "~> 1.2.a", .str "< 2.0"] = .ok d ∧
      (∀ t, .str t ∈ [Value.str "~> 1.2.a", .str "< 2.0"] → ¬ ['!', '='] <+: Text.strip t.toList) ∧
      Version.le ⟨1, 2, 0, [.word ['b']]⟩ ⟨1, 2, 0, []⟩ = true ∧
      Version.le ⟨1, 2, 0, []⟩ ⟨1, 3, 0, [.word ['a']]⟩ = true ∧
      d.admits ⟨1, 2, 0, []⟩ = true := by
  have hx : ∀ t, .str t ∈ [Value.str "~> 1.2.a", .str "< 2.0"] →
      ¬ ['!', '='] <+: Text.strip t.toList := by
    intro t ht
    simp only [List.mem_cons, List.not_mem_nil, or_false, Value.scalar.injEq, Scalar.str.injEq] at ht
    rcases ht with rfl | rfl <;> decide +kernel
  have h : ofValues (.str "a") [.str "~> 1.2.a", .str "< 2.0"] = .ok ⟨.str "a",
      [⟨"~> 1.2.a", [⟨.atLeast, ⟨1, 2, 0, [.word ['a']]⟩⟩, ⟨.below, ⟨2, 0, 0, []⟩⟩]⟩,
        ⟨"< 2.0", [⟨.below, ⟨2, 0, 0, []⟩⟩]⟩]⟩ := by
    decide +kernel
  have huv : Version.le ⟨1, 2, 0, [.word ['b']]⟩ ⟨1, 2, 0, []⟩ = true := by decide
  have hvw : Version.le ⟨1, 2, 0, []⟩ ⟨1, 3, 0, [.word ['a']]⟩ = true := by decide
  exact ⟨_, h, hx, huv, hvw, admits_between h hx huv hvw (by decide) (by decide)⟩

end Dependency

end Gemfile
