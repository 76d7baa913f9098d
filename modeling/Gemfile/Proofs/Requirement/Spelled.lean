import Gemfile.Dependency
import Gemfile.Proofs.Except
import Gemfile.Proofs.Precedence
import Gemfile.Proofs.Spelling.Printed

/-!
# Spelled requirements

* `Requirement.Spelled cs s v`   blanks, the sign `s` or none, blanks, the version `v`, blanks
* `Requirement.Stated s v cl`    the clauses that a sign in front of a version states; the upper bound
                                 of the pessimistic sign is written out and read as a version
* `ofValue_of_spelled`, `spelled_of_ofValue`   what is spelled so is a requirement, and nothing else
* `ofValue_stated`               what is spelled states its clauses
* `requirementsOf_isOk`, `requirementsOf_eq_error`   many of them, up to the first that is none
-/

namespace Gemfile

namespace Text

def Blanks (cs : List Char) : Prop := ∀ c ∈ cs, isBlank c = true

end Text

open Text (Blanks)

namespace Requirement

/-! ## the grammar of requirements -/

/-- how a requirement writes a sign -/
def Sign.text : Sign → String
  | .compare .equal => "="
  | .compare c => c.sign
  | .pessimistic => "~>"

/-- a sign may be absent, and versions are to be equal then -/
inductive Sign.Written : Sign → List Char → Prop
  | sign (s : Sign) : s.Written s.text.toList
  | absent : (Sign.compare .equal).Written []

/-- `blank* [sign] blank* version blank*` -/
inductive Spelled : List Char → Sign → List Char → Prop
  | mk {a m b v c : List Char} {s : Sign} :
      Blanks a → s.Written m → Blanks b → Version.Spelled v → Blanks c →
      Spelled (a ++ m ++ b ++ v ++ c) s v

/-! ## signs -/

lemma head_text (s : Sign) : ∃ c rest, s.text.toList = c :: rest ∧ Text.isBlank c = false := by
  cases s with
  | compare c => cases c <;> exact ⟨_, _, rfl, rfl⟩
  | pessimistic => exact ⟨_, _, rfl, rfl⟩

lemma sign_append (s : Sign) {r : List Char} (h : r.head? ≠ some '=') :
    sign (s.text.toList ++ r) = (s, r) := by
  have above : sign ('>' :: r) = (.compare .above, r) := by
    unfold sign
    split <;> simp_all
  have below : sign ('<' :: r) = (.compare .below, r) := by
    unfold sign
    split <;> simp_all
  cases s with
  | pessimistic => rfl
  | compare c =>
    cases c with
    | equal => rfl
    | unlike => rfl
    | atLeast => rfl
    | atMost => rfl
    | above => exact above
    | below => exact below

lemma sign_of_isDigit {d : Char} (h : d.isDigit = true) (r : List Char) :
    sign (d :: r) = (.compare .equal, d :: r) := by
  unfold sign
  split <;> simp_all

lemma sign_written (cs : List Char) : ∃ m, (sign cs).1.Written m ∧ cs = m ++ (sign cs).2 := by
  unfold sign
  split
  · exact ⟨_, .sign (.compare .equal), rfl⟩
  · exact ⟨_, .sign (.compare .unlike), rfl⟩
  · exact ⟨_, .sign (.compare .atLeast), rfl⟩
  · exact ⟨_, .sign (.compare .atMost), rfl⟩
  · exact ⟨_, .sign (.compare .above), rfl⟩
  · exact ⟨_, .sign (.compare .below), rfl⟩
  · exact ⟨_, .sign .pessimistic, rfl⟩
  · exact ⟨[], .absent, rfl⟩

/-! ## what is spelled is read -/

section
variable {cs v : List Char} {s : Sign}

lemma Spelled.version (h : Spelled cs s v) : Version.Spelled v := by
  cases h
  assumption

/-- a version has no blanks, and begins with a digit -/
lemma solid_of_spelled (h : Version.Spelled v) :
    (∀ c ∈ v, Text.isBlank c = false) ∧ ∃ d r, v = d :: r ∧ d.isDigit = true :=
  have hw := (Version.wellFormed_iff v).mpr h
  ⟨Version.not_blank_of_wellFormed hw, Version.head_of_wellFormed hw⟩

lemma stripLeft_blanks {b : List Char} (hb : Blanks b) (hv : Version.Spelled v) :
    Text.stripLeft (b ++ v) = v := by
  unfold Text.stripLeft
  rw [List.dropWhile_append_of_pos hb]
  exact Text.dropWhile_of_head fun c hc => (solid_of_spelled hv).1 c (List.mem_of_head? hc)

/-- the sign and the version, without the blanks around them -/
lemma sign_of_spelled (h : Spelled cs s v) :
    ∃ r, sign (Text.strip cs) = (s, r) ∧ Text.stripLeft r = v := by
  obtain @⟨a, m, b, v, c, s, ha, hm, hb, hv, hc⟩ := h
  obtain ⟨solid, d, r, rfl, hd⟩ := solid_of_spelled hv
  have last (m : List Char) : ∀ x, (m ++ d :: r).getLast? = some x → Text.isBlank x = false := by
    intro x hx
    rw [List.getLast?_append_of_ne_nil _ (List.cons_ne_nil _ _)] at hx
    exact solid x (List.mem_of_getLast? hx)
  cases hm with
  | sign =>
    obtain ⟨x, rest, hx, front⟩ := head_text s
    have strip : Text.strip (a ++ s.text.toList ++ b ++ d :: r ++ c) =
        s.text.toList ++ (b ++ d :: r) := by
      have parts : a ++ s.text.toList ++ b ++ d :: r ++ c =
          a ++ (s.text.toList ++ b ++ d :: r) ++ c := by simp
      rw [parts, Text.strip_of_ends ha hc (by simp) ?_ (last _), List.append_assoc]
      intro y hy
      rw [hx] at hy
      cases hy
      exact front
    have head : (b ++ d :: r).head? ≠ some '=' := by
      cases b with
      | nil =>
        rintro ⟨⟩
        cases hd
      | cons y b =>
        rintro ⟨⟩
        exact absurd (hb '=' List.mem_cons_self) (by decide)
    exact ⟨_, by rw [strip, sign_append s head], stripLeft_blanks hb hv⟩
  | absent =>
    have blanks : Blanks (a ++ b) := List.forall_mem_append.mpr ⟨ha, hb⟩
    have strip : Text.strip (a ++ [] ++ b ++ d :: r ++ c) = d :: r := by
      rw [List.append_nil]
      refine Text.strip_of_ends blanks hc (List.cons_ne_nil _ _) ?_ (last [])
      rintro y ⟨⟩
      exact solid d List.mem_cons_self
    refine ⟨_, by rw [strip, sign_of_isDigit hd], ?_⟩
    exact stripLeft_blanks (b := []) (fun y hy => absurd hy List.not_mem_nil) hv

theorem ofValue_of_spelled {t : String} {V : Version} (h : Spelled t.toList s v)
    (hV : Version.read? v = some V) : ofValue (.str t) = .ok ⟨t, clausesOf s v V⟩ := by
  obtain ⟨r, hs, hr⟩ := sign_of_spelled h
  have like := Version.versionLike_of_wellFormed ((Version.wellFormed_iff v).mpr h.version)
  unfold ofValue
  simp only [hs, hr, like, hV, if_true]

end

/-! ## what is read is spelled -/

theorem spelled_of_ofValue {t : String} {r : Requirement} (h : ofValue (.str t) = .ok r) :
    ∃ s v V, Spelled t.toList s v ∧ Version.read? v = some V ∧ r = ⟨t, clausesOf s v V⟩ := by
  unfold ofValue at h
  dsimp only at h
  obtain ⟨a, c, ha, hc, strip⟩ := Text.exists_strip t.toList
  obtain ⟨m, hm, parts⟩ := sign_written (Text.strip t.toList)
  generalize sign (Text.strip t.toList) = p at *
  obtain ⟨s, rest⟩ := p
  split at h
  · next like =>
    split at h
    · next V hV =>
      obtain rfl := Except.ok.inj h
      have solid : ∀ c ∈ Text.stripLeft rest, Text.isBlank c = false := fun c hc =>
        Version.not_blank_of_isSpelling
          (List.all_eq_true.mp (Bool.and_eq_true_iff.mp like).2 c hc)
      have hv := (Version.read?_eq_some.mp hV).1
      rw [Text.strip_of_not_blank solid, Version.wellFormed_iff] at hv
      refine ⟨s, _, V, ?_, hV, rfl⟩
      have text : t.toList = a ++ m ++ rest.takeWhile Text.isBlank ++ Text.stripLeft rest ++ c := by
        have front : rest.takeWhile Text.isBlank ++ Text.stripLeft rest = rest :=
          List.takeWhile_append_dropWhile
        rw [List.append_assoc (a ++ m), front, List.append_assoc a, ← parts]
        exact strip
      rw [text]
      exact .mk ha hm (fun x hx => List.mem_takeWhile_imp hx) hv hc
    · cases h
  · cases h

end Requirement

/-! ## what a requirement is made of -/

namespace Version

/-- `v` is read as `V`, and the three numbers of `V` are there to be taken: those that `v` begins with,
and two zeros behind them -/
def Reads (v : List Char) (V : Version) : Prop :=
  read? v = some V ∧ V.numbers = (releaseOf (segments v) ++ [0, 0]).take 3

lemma numbers_ofRelease {ns : List Nat} (h : ns ≠ []) (p : List Identifier) :
    (ofRelease ns p).numbers = (ns ++ [0, 0]).take 3 := by
  cases ns with
  | nil => exact absurd rfl h
  | cons l ns =>
    cases ns with
    | nil => rfl
    | cons m ns => cases ns <;> rfl

lemma reads_of_spelled {v : List Char} (h : Spelled v) : Reads v (ofSegments (segments v)) := by
  have hw := (wellFormed_iff v).mpr h
  exact ⟨read?_of_wellFormed hw, numbers_ofRelease (releaseOf_segments_ne_nil hw) _⟩

lemma reads_writtenNumbers {ns : List Nat} (h : ns ≠ []) :
    Reads (writtenNumbers ns) (ofRelease ns []) := by
  refine ⟨read?_writtenNumbers h, ?_⟩
  unfold writtenNumbers
  rw [segments_written (proper_numbers ns), releaseOf_numbers, numbers_ofRelease h]

end Version

namespace Requirement
open Version (Reads releaseOf segments writtenNumbers)

/-- the last number is taken away if there are more, and the last one left is raised -/
inductive Raised : List Nat → List Nat → Prop
  | one (n : Nat) : Raised [n] [n + 1]
  | more (ns : List Nat) (m n : Nat) : Raised (ns ++ [m, n]) (ns ++ [m + 1])

/-- the clauses that the sign `s` in front of the version `v` states; for the pessimistic sign, the
numbers of the upper bound are written out and read as a version -/
inductive Stated : Sign → List Char → List Clause → Prop
  | compare {c : Comparison} {v : List Char} {V : Version} :
      Reads v V → Stated (.compare c) v [⟨c, V⟩]
  | pessimistic {v : List Char} {V B : Version} {ns : List Nat} :
      Reads v V → Raised (releaseOf (segments v)) ns → Reads (writtenNumbers ns) B →
      Stated .pessimistic v [⟨.atLeast, V⟩, ⟨.below, B⟩]

lemma raised_bump {ns : List Nat} (h : ns ≠ []) : Raised ns (bump ns) := by
  rcases List.eq_nil_or_concat ns with rfl | ⟨ms, n, rfl⟩
  · exact absurd rfl h
  · rcases List.eq_nil_or_concat ms with rfl | ⟨ls, m, rfl⟩
    · exact .one n
    · have kept : bump (ls ++ [m, n]) = ls ++ [m + 1] := by simp [bump]
      rw [List.concat_eq_append, List.concat_eq_append, List.append_assoc]
      exact kept ▸ .more ls m n

lemma bump_ne_nil (ns : List Nat) : bump ns ≠ [] := by
  unfold bump
  simp

lemma stated_clausesOf {v : List Char} (h : Version.Spelled v) (s : Sign) :
    Stated s v (clausesOf s v (Version.ofSegments (segments v))) := by
  have reads := Version.reads_of_spelled h
  cases s with
  | compare c => exact .compare reads
  | pessimistic =>
    have ne := Version.releaseOf_segments_ne_nil ((Version.wellFormed_iff v).mpr h)
    exact .pessimistic reads (raised_bump ne) (Version.reads_writtenNumbers (bump_ne_nil _))

/-- `x` is a text that writes a requirement -/
def IsSpelled (x : Value) : Prop := ∃ t s v, x = .str t ∧ Spelled t.toList s v

lemma ofValue_stated {t : String} {s : Sign} {v : List Char} (h : Spelled t.toList s v) :
    ∃ cl, ofValue (.str t) = .ok ⟨t, cl⟩ ∧ Stated s v cl :=
  ⟨_, ofValue_of_spelled h (Version.reads_of_spelled h.version).1, stated_clausesOf h.version s⟩

lemma exists_ofValue_iff (x : Value) : (∃ r, ofValue x = .ok r) ↔ IsSpelled x := by
  constructor
  · rintro ⟨r, h⟩
    have text : ∃ t, x = .str t := by
      unfold ofValue at h
      split at h
      · exact ⟨_, rfl⟩
      · cases h
    obtain ⟨t, rfl⟩ := text
    obtain ⟨s, v, V, hs, -, -⟩ := spelled_of_ofValue h
    exact ⟨t, s, v, rfl, hs⟩
  · rintro ⟨t, s, v, rfl, hs⟩
    obtain ⟨cl, h, -⟩ := ofValue_stated hs
    exact ⟨_, h⟩

end Requirement

/-! ## many requirements -/

section
open Requirement (IsSpelled ofValue)

lemma requirementsOf_isOk (xs : List Value) :
    (∃ rs, requirementsOf xs = .ok rs) ↔ ∀ x ∈ xs, IsSpelled x := by
  induction xs with
  | nil => exact iff_of_true ⟨[], rfl⟩ fun x hx => absurd hx List.not_mem_nil
  | cons x xs ih =>
    rw [List.forall_mem_cons, ← ih, ← Requirement.exists_ofValue_iff]
    constructor
    · rintro ⟨rs, h⟩
      obtain ⟨r, hr, h⟩ := bind_eq_ok.mp h
      obtain ⟨rs, hrs, -⟩ := bind_eq_ok.mp h
      exact ⟨⟨r, hr⟩, rs, hrs⟩
    · rintro ⟨⟨r, hr⟩, rs, hrs⟩
      exact ⟨r :: rs, bind_eq_ok.mpr ⟨r, hr, bind_eq_ok.mpr ⟨rs, hrs, rfl⟩⟩⟩

/-- the fault of the first that is no requirement -/
lemma requirementsOf_eq_error (xs : List Value) (f : RequirementFault) :
    requirementsOf xs = .error f ↔
      ∃ l x r, xs = l ++ x :: r ∧ (∀ y ∈ l, IsSpelled y) ∧ ofValue x = .error f := by
  induction xs with
  | nil =>
    refine iff_of_false (by rintro ⟨⟩) ?_
    rintro ⟨l, x, r, h, -⟩
    exact absurd h (by simp)
  | cons x xs ih =>
    constructor
    · intro h
      rcases bind_eq_error.mp h with hx | ⟨r, hr, h⟩
      · exact ⟨[], x, xs, rfl, fun y hy => absurd hy List.not_mem_nil, hx⟩
      · rcases bind_eq_error.mp h with h | ⟨rs, -, h⟩
        · obtain ⟨l, y, r', rfl, hl, hy⟩ := ih.mp h
          have hx := (Requirement.exists_ofValue_iff x).mp ⟨r, hr⟩
          exact ⟨x :: l, y, r', rfl, List.forall_mem_cons.mpr ⟨hx, hl⟩, hy⟩
        · cases h
    · rintro ⟨l, y, r, h, hl, hy⟩
      cases l with
      | nil =>
        obtain ⟨rfl, rfl⟩ := List.cons.inj h
        exact bind_eq_error.mpr (.inl hy)
      | cons z l =>
        obtain ⟨rfl, rfl⟩ := List.cons.inj h
        obtain ⟨hx, hl⟩ := List.forall_mem_cons.mp hl
        obtain ⟨r', hr⟩ := (Requirement.exists_ofValue_iff x).mpr hx
        have rest := ih.mpr ⟨l, y, r, rfl, hl, hy⟩
        exact bind_eq_error.mpr (.inr ⟨r', hr, bind_eq_error.mpr (.inl rest)⟩)

end

namespace Dependency
open Requirement (IsSpelled Spelled Stated)

/-- A value is a requirement exactly if it is a text that writes one, and then it has the clauses that
its sign states; a dependency exists exactly if all its requirements are of this kind, and otherwise
the first that is not is the fault -/
theorem ofValues_spelled :
    (∀ x, (∃ r, Requirement.ofValue x = .ok r) ↔ IsSpelled x) ∧
      (∀ t s v, Spelled t.toList s v →
        ∃ cl, Requirement.ofValue (.str t) = .ok ⟨t, cl⟩ ∧ Stated s v cl) ∧
      ∀ name xs, ((∃ d, ofValues name xs = .ok d) ↔ ∀ x ∈ xs, IsSpelled x) ∧
        ∀ f, ofValues name xs = .error f ↔ ∃ l x r, xs = l ++ x :: r ∧ (∀ y ∈ l, IsSpelled y) ∧
          ¬ IsSpelled x ∧ Requirement.ofValue x = .error f := by
  refine ⟨Requirement.exists_ofValue_iff, fun t s v => Requirement.ofValue_stated, fun name xs => ?_⟩
  have no_error {x : Value} {f : RequirementFault} (h : Requirement.ofValue x = .error f) :
      ¬ IsSpelled x := by
    rw [← Requirement.exists_ofValue_iff, h]
    rintro ⟨r, ⟨⟩⟩
  constructor
  · rw [← requirementsOf_isOk]
    constructor
    · rintro ⟨d, h⟩
      obtain ⟨rs, hrs, -⟩ := bind_eq_ok.mp h
      exact ⟨rs, hrs⟩
    · rintro ⟨rs, hrs⟩
      exact ⟨_, bind_eq_ok.mpr ⟨rs, hrs, rfl⟩⟩
  · intro f
    have first : ofValues name xs = .error f ↔ requirementsOf xs = .error f := by
      constructor
      · intro h
        rcases bind_eq_error.mp h with h | ⟨rs, -, h⟩
        · exact h
        · cases h
      · exact fun h => bind_eq_error.mpr (.inl h)
    rw [first, requirementsOf_eq_error]
    constructor
    · rintro ⟨l, x, r, e, hl, hx⟩
      exact ⟨l, x, r, e, hl, no_error hx, hx⟩
    · rintro ⟨l, x, r, e, hl, -, hx⟩
      exact ⟨l, x, r, e, hl, hx⟩

/-- the upper bound of a prerelease is a release -/
theorem ofValues_spelled_pessimistic :
    Spelled " ~>1.0.rc1 ".toList .pessimistic "1.0.rc1".toList ∧
      Requirement.ofValue (.str " ~>1.0.rc1 ") = .ok ⟨" ~>1.0.rc1 ",
        [⟨.atLeast, ⟨1, 0, 0, [.word ['r', 'c'], .number 1]⟩⟩, ⟨.below, ⟨2, 0, 0, []⟩⟩]⟩ ∧
      Stated .pessimistic "1.0.rc1".toList
        [⟨.atLeast, ⟨1, 0, 0, [.word ['r', 'c'], .number 1]⟩⟩, ⟨.below, ⟨2, 0, 0, []⟩⟩] := by
  have parts : " ~>1.0.rc1 ".toList =
      [' '] ++ Requirement.Sign.pessimistic.text.toList ++ [] ++ "1.0.rc1".toList ++ [' '] := by
    decide +kernel
  have spelled : Spelled " ~>1.0.rc1 ".toList .pessimistic "1.0.rc1".toList := by
    rw [parts]
    exact .mk (List.forall_mem_singleton.mpr rfl) (.sign _) (fun c hc => absurd hc List.not_mem_nil)
      ((Version.wellFormed_iff _).mp (by decide +kernel)) (List.forall_mem_singleton.mpr rfl)
  obtain ⟨cl, h, stated⟩ := ofValues_spelled.2.1 _ _ _ spelled
  have read : Requirement.ofValue (.str " ~>1.0.rc1 ") = .ok ⟨" ~>1.0.rc1 ",
      [⟨.atLeast, ⟨1, 0, 0, [.word ['r', 'c'], .number 1]⟩⟩, ⟨.below, ⟨2, 0, 0, []⟩⟩]⟩ := by
    decide +kernel
  obtain ⟨rfl⟩ := Requirement.mk.inj (Except.ok.inj (h.symm.trans read)) |>.2
  exact ⟨spelled, h, stated⟩

end Dependency

end Gemfile
