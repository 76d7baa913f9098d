import Gemfile.Proofs.Precedence
import Gemfile.Proofs.Spelling

/-!
# The order of gems and precedence

Among gems, versions are compared segment by segment: a word comes before every number, a missing segment
counts as zero, and zeros at the end of the numbers or of the whole do not count.

* `compareSegments`, `canonical`, `compareGems`   this order, on segments and on texts that spell versions
* `compareSegments_append`   numbers decide before what stands behind them
* `compareGems_eq`           so this order is that of the three numbers, of those that a version drops, and
                             of the prereleases
* `Turned p q`               where precedence has the prerelease `p` above `q`, against the order of gems
* `comparePrerelease_eq_gt`  there are no other such prereleases
* `le_of_compareGems`        what is in order among gems is in order by precedence, but for the versions
                             that are `Reversed`
-/

namespace Gemfile

/-- segments among gems: numbers by value, words letter by letter, a word before a number -/
def Identifier.rank : Identifier → Identifier → Ordering
  | .number m, .number n => Ord.compare m n
  | .number _, .word _ => .gt
  | .word _, .number _ => .lt
  | .word v, .word w => Ord.compare v w

lemma Identifier.rank_swap (s t : Identifier) : (s.rank t).swap = t.rank s := by
  cases s with
  | number m =>
    cases t with
    | number n => exact Std.OrientedOrd.eq_swap.symm
    | word w => rfl
  | word v =>
    cases t with
    | number n => rfl
    | word w => exact Std.OrientedOrd.eq_swap.symm

/-- segments in order among gems are a word in front of a number, or compare in the same way -/
lemma Identifier.rank_cases {i j : Identifier} (h : i.rank j ≠ .gt) :
    (∃ x n, i = .word x ∧ j = .number n) ∨
      i.rank j = i.compare j ∧ ¬ ∃ x n, i = .word x ∧ j = .number n := by
  cases i with
  | number m =>
    cases j with
    | number n => exact .inr ⟨rfl, by simp⟩
    | word y => exact absurd rfl h
  | word x =>
    cases j with
    | number n => exact .inl ⟨x, n, rfl, rfl⟩
    | word y => exact .inr ⟨rfl, by simp⟩

namespace Version

/-- a list of segments against zeros -/
def aboveZeros : List Identifier → Ordering
  | [] => .eq
  | s :: ss => (s.rank (.number 0)).then (aboveZeros ss)

/-- segment by segment, a missing one as zero -/
def compareSegments : List Identifier → List Identifier → Ordering
  | ss, [] => aboveZeros ss
  | [], ts => (aboveZeros ts).swap
  | s :: ss, t :: ts => (s.rank t).then (compareSegments ss ts)

/-- without the zeros at the end -/
def trimmed (ss : List Identifier) : List Identifier := ss.rdropWhile (· = .number 0)

def canonical (ss : List Identifier) : List Identifier :=
  trimmed ((releaseOf ss).map .number) ++ trimmed (prereleaseOf ss)

/-- the order of gems on texts that spell versions -/
def compareGems (a b : String) : Ordering :=
  compareSegments (canonical (segments (Text.strip a.toList)))
    (canonical (segments (Text.strip b.toList)))

/-! ## segments -/

lemma compareSegments_cons_cons (s t : Identifier) (ss ts : List Identifier) :
    compareSegments (s :: ss) (t :: ts) = (s.rank t).then (compareSegments ss ts) := rfl

lemma compareSegments_cons_nil (s : Identifier) (ss : List Identifier) :
    compareSegments (s :: ss) [] = (s.rank (.number 0)).then (compareSegments ss []) := by
  cases ss <;> rfl

lemma compareSegments_nil_cons (t : Identifier) (ts : List Identifier) :
    compareSegments [] (t :: ts) = (Identifier.rank (.number 0) t).then (compareSegments [] ts) := by
  show ((t.rank (.number 0)).then (aboveZeros ts)).swap = _
  rw [Ordering.swap_then, Identifier.rank_swap]
  cases ts <;> rfl

/-- the end of a list stands for a zero -/
lemma compareSegments_step (ss ts : List Identifier) : compareSegments ss ts =
    ((ss.headD (.number 0)).rank (ts.headD (.number 0))).then (compareSegments ss.tail ts.tail) := by
  cases ss with
  | nil =>
    cases ts with
    | nil => rfl
    | cons t ts => exact compareSegments_nil_cons t ts
  | cons s ss =>
    cases ts with
    | nil => exact compareSegments_cons_nil s ss
    | cons t ts => rfl

lemma compareSegments_swap (ss ts : List Identifier) :
    (compareSegments ss ts).swap = compareSegments ts ss := by
  induction ss generalizing ts with
  | nil =>
    induction ts with
    | nil => rfl
    | cons t ts ih =>
      rw [compareSegments_nil_cons, compareSegments_cons_nil, Ordering.swap_then, ih,
        Identifier.rank_swap]
  | cons s ss ih =>
    rw [compareSegments_step _ ts, compareSegments_step ts, Ordering.swap_then, Identifier.rank_swap]
    exact congrArg _ (ih ts.tail)

lemma compareSegments_append_zeros (ss zs ts : List Identifier) (hz : ∀ z ∈ zs, z = .number 0) :
    compareSegments (ss ++ zs) ts = compareSegments ss ts := by
  induction ss generalizing ts with
  | nil =>
    induction zs generalizing ts with
    | nil => rfl
    | cons z zs ih =>
      obtain ⟨rfl, hzs⟩ := List.forall_mem_cons.mp hz
      rw [compareSegments_step, compareSegments_step []]
      exact congrArg _ (ih hzs ts.tail)
  | cons s ss ih =>
    rw [compareSegments_step, compareSegments_step (s :: ss)]
    exact congrArg _ (ih ts.tail)

lemma compareSegments_trimmed (ss ts : List Identifier) :
    compareSegments (trimmed ss) (trimmed ts) = compareSegments ss ts := by
  have left (ss ts : List Identifier) : compareSegments (trimmed ss) ts = compareSegments ss ts := by
    rw [← compareSegments_append_zeros (trimmed ss) (ss.rtakeWhile (· = .number 0))]
    · exact congrArg (compareSegments · ts) List.rdropWhile_append_rtakeWhile
    · intro z hz
      simpa using List.mem_rtakeWhile_imp hz
  rw [left, ← compareSegments_swap, left, compareSegments_swap]

/-! ## numbers and what stands behind them -/

/-- no number in front -/
def Wordy (p : List Identifier) : Prop := ∀ n, p.head? ≠ some (.number n)

lemma wordy_nil : Wordy [] := by
  intro n h
  cases h

lemma wordy_word (w : List Char) (p : List Identifier) : Wordy (.word w :: p) := by
  intro n h
  cases h

lemma wordy_prereleaseOf (ss : List Identifier) : Wordy (prereleaseOf ss) := by
  induction ss with
  | nil => exact wordy_nil
  | cons s ss ih =>
    cases s with
    | number m => exact ih
    | word w => exact wordy_word w ss

lemma wordy_trimmed {p : List Identifier} (h : Wordy p) : Wordy (trimmed p) := by
  intro n hn
  refine h n ?_
  obtain ⟨r, hr⟩ : trimmed p <+: p := List.rdropWhile_prefix _ _
  rw [← hr, List.head?_append, hn]
  rfl

/-- no zero at the end -/
def Trim (ns : List Nat) : Prop := ∀ h : ns ≠ [], ns.getLast h ≠ 0

lemma Trim.tail {n : Nat} {ns : List Nat} (h : Trim (n :: ns)) : Trim ns := by
  intro hn
  have := h (List.cons_ne_nil _ _)
  rwa [List.getLast_cons hn] at this

lemma trimmed_numbers (ns : List Nat) :
    ∃ ms, Trim ms ∧ trimmed (ns.map .number) = ms.map .number := by
  refine ⟨ns.rdropWhile (· = 0), fun h => ?_, ?_⟩
  · simpa using List.rdropWhile_last_not _ ns h
  · unfold trimmed List.rdropWhile
    rw [← List.map_reverse, List.dropWhile_map, List.map_reverse]
    congr
    funext n
    simp

lemma compareSegments_nil_numbers {n : Nat} {ns : List Nat} (hn : Trim (n :: ns))
    (q : List Identifier) : compareSegments [] ((n :: ns).map .number ++ q) = .lt := by
  rw [List.map_cons, List.cons_append, compareSegments_nil_cons]
  show (Ord.compare 0 n).then _ = _
  induction ns generalizing n with
  | nil =>
    have pos : n ≠ 0 := hn (List.cons_ne_nil _ _)
    rw [Nat.compare_eq_lt.mpr (Nat.pos_of_ne_zero pos)]
    rfl
  | cons n' ns ih =>
    have rest : compareSegments [] ((n' :: ns).map .number ++ q) = .lt := by
      rw [List.map_cons, List.cons_append, compareSegments_nil_cons]
      exact ih hn.tail
    rw [rest]
    cases hc : Ord.compare 0 n with
    | lt => rfl
    | eq => rfl
    | gt => exact absurd (Nat.compare_eq_gt.mp hc) (Nat.not_lt_zero n)

lemma compareSegments_numbers {p : List Identifier} (hp : Wordy p) {n : Nat} {ns : List Nat}
    (hn : Trim (n :: ns)) (q : List Identifier) :
    compareSegments p ((n :: ns).map .number ++ q) = .lt := by
  cases p with
  | nil => exact compareSegments_nil_numbers hn q
  | cons s p =>
    cases s with
    | number m => exact absurd rfl (hp m)
    | word w => rfl

theorem compareSegments_append {p q : List Identifier} (hp : Wordy p) (hq : Wordy q) {ms ns : List Nat}
    (hm : Trim ms) (hn : Trim ns) :
    compareSegments (ms.map .number ++ p) (ns.map .number ++ q) =
      (compareSegments (ms.map .number) (ns.map .number)).then (compareSegments p q) := by
  induction ms generalizing ns with
  | nil =>
    cases ns with
    | nil => rfl
    | cons n ns =>
      have h1 := compareSegments_numbers hp hn q
      have h2 := compareSegments_nil_numbers hn []
      rw [List.append_nil] at h2
      rw [List.map_nil, List.nil_append, h1, h2]
      rfl
  | cons m ms ih =>
    cases ns with
    | nil =>
      have h1 := compareSegments_numbers hq hm p
      have h2 := compareSegments_nil_numbers hm []
      rw [List.append_nil] at h2
      rw [List.map_nil, List.nil_append, ← compareSegments_swap q, h1, ← compareSegments_swap [], h2]
      rfl
    | cons n ns =>
      show (Ord.compare m n).then _ = ((Ord.compare m n).then _).then _
      rw [Ordering.then_assoc]
      exact congrArg _ (ih hm.tail hn.tail)

/-- the numbers behind the third, which a version drops -/
def dropped (s : String) : List Identifier := ((numbersIn s).drop 3).map .number

lemma compareSegments_release (ms ns : List Nat) (p q : List Identifier) :
    compareSegments (ms.map .number) (ns.map .number) =
      (compareRelease (ofRelease ms p) (ofRelease ns q)).then
        (compareSegments ((ms.drop 3).map .number) ((ns.drop 3).map .number)) := by
  have head (l : List Nat) (i : Nat) :
      ((l.drop i).map Identifier.number).headD (.number 0) = .number (l.getD i 0) := by
    rw [List.headD_eq_head?_getD, List.head?_map, List.head?_drop, List.getD_eq_getElem?_getD]
    cases l[i]? <;> rfl
  have tail (l : List Nat) (i : Nat) :
      ((l.drop i).map Identifier.number).tail = (l.drop (i + 1)).map .number := by
    rw [← List.map_tail, List.tail_drop]
  have step (i : Nat) : compareSegments ((ms.drop i).map .number) ((ns.drop i).map .number) =
      (Ord.compare (ms.getD i 0) (ns.getD i 0)).then
        (compareSegments ((ms.drop (i + 1)).map .number) ((ns.drop (i + 1)).map .number)) := by
    rw [compareSegments_step, head, head, tail, tail]
    rfl
  show compareSegments ((ms.drop 0).map .number) ((ns.drop 0).map .number) = _
  rw [step 0, step 1, step 2]
  unfold compareRelease ofRelease
  rw [Ordering.then_assoc, Ordering.then_assoc]

section
variable {a b : String} {v w : Version}

lemma prerelease_eq (h : ofValue (.str a) = .ok v) :
    v.prerelease = prereleaseOf (segments (Text.strip a.toList)) := by
  obtain ⟨_, rfl⟩ := read?_eq_some.mp (ofValue_eq_ok.mp h)
  rfl

/-- the order of gems reads the three numbers, those that are dropped, and the prerelease -/
theorem compareGems_eq (ha : ofValue (.str a) = .ok v) (hb : ofValue (.str b) = .ok w) :
    compareGems a b = (compareRelease v w).then ((compareSegments (dropped a) (dropped b)).then
      (compareSegments v.prerelease w.prerelease)) := by
  have numbers : compareSegments ((numbersIn a).map .number) ((numbersIn b).map .number) =
      (compareRelease v w).then (compareSegments (dropped a) (dropped b)) := by
    rw [ofRelease_numbersIn ha, ofRelease_numbersIn hb]
    exact compareSegments_release _ _ _ _
  obtain ⟨ms, hm, ems⟩ := trimmed_numbers (numbersIn a)
  obtain ⟨ns, hn, ens⟩ := trimmed_numbers (numbersIn b)
  rw [← Ordering.then_assoc, ← numbers, ← compareSegments_trimmed, ← compareSegments_trimmed v.prerelease,
    ems, ens, prerelease_eq ha, prerelease_eq hb]
  rw [← compareSegments_append (wordy_trimmed (wordy_prereleaseOf _))
    (wordy_trimmed (wordy_prereleaseOf _)) hm hn, ← ems, ← ens]
  rfl

end

/-! ## prereleases -/

/-- zeros only, or zeros and then a word -/
def Vanishing (ss : List Identifier) : Prop := Wordy (ss.dropWhile (· = .number 0))

lemma compareSegments_nil_iff (ss : List Identifier) :
    compareSegments ss [] ≠ .gt ↔ Vanishing ss := by
  induction ss with
  | nil => exact iff_of_true (by decide) wordy_nil
  | cons s ss ih =>
    rw [compareSegments_cons_nil]
    unfold Vanishing
    cases s with
    | word w =>
      refine iff_of_true ?_ (wordy_word w ss)
      rintro ⟨⟩
    | number m =>
      cases m with
      | zero => exact ih
      | succ m => exact iff_of_false (fun h => h rfl) fun h => h (m + 1) rfl

/-- the prereleases where the two orders part: behind a common part a word stands against a number, or
the one goes on behind the other with what counts as nothing among gems -/
def Turned (p q : List Identifier) : Prop :=
  (∃ c x s n t, p = c ++ .word x :: s ∧ q = c ++ .number n :: t) ∨
    ∃ s, s ≠ [] ∧ Vanishing s ∧ p = q ++ s

lemma not_turned_nil (q : List Identifier) : ¬ Turned [] q := by
  rintro (⟨c, x, s, n, t, h, _⟩ | ⟨s, hs, _, h⟩)
  · exact absurd h.symm (by simp)
  · exact hs (List.append_eq_nil_iff.mp h.symm).2

lemma turned_nil {p : List Identifier} (hp : p ≠ []) (h : Vanishing p) : Turned p [] :=
  .inr ⟨p, hp, h, rfl⟩

lemma turned_cons {i j : Identifier} {p q : List Identifier} : Turned (i :: p) (j :: q) ↔
    i = j ∧ Turned p q ∨ ∃ x n, i = .word x ∧ j = .number n := by
  constructor
  · rintro (⟨c, x, s, n, t, h1, h2⟩ | ⟨s, hs, hv, h⟩)
    · cases c with
      | nil =>
        cases h1
        cases h2
        exact .inr ⟨x, n, rfl, rfl⟩
      | cons k c =>
        cases h1
        cases h2
        exact .inl ⟨rfl, .inl ⟨c, x, s, n, t, rfl, rfl⟩⟩
    · cases h
      exact .inl ⟨rfl, .inr ⟨s, hs, hv, rfl⟩⟩
  · rintro (⟨rfl, ⟨c, x, s, n, t, rfl, rfl⟩ | ⟨s, hs, hv, rfl⟩⟩ | ⟨x, n, rfl, rfl⟩)
    · exact .inl ⟨i :: c, x, s, n, t, rfl, rfl⟩
    · exact .inr ⟨s, hs, hv, rfl⟩
    · exact .inl ⟨[], x, p, n, q, rfl, rfl⟩

lemma compareLex_eq_gt {p q : List Identifier} (h : compareSegments p q ≠ .gt) :
    List.compareLex Identifier.compare p q = .gt ↔ Turned p q := by
  induction p generalizing q with
  | nil =>
    refine iff_of_false ?_ (not_turned_nil q)
    cases q <;> rintro ⟨⟩
  | cons i p ih =>
    cases q with
    | nil =>
      rw [List.compareLex_cons_nil]
      exact iff_of_true rfl (turned_nil (List.cons_ne_nil _ _) ((compareSegments_nil_iff _).mp h))
    | cons j q =>
      rw [compareSegments_cons_cons] at h
      rw [List.compareLex_cons_cons, turned_cons]
      have hr : i.rank j ≠ .gt := fun e => h (by rw [e]; rfl)
      rcases Identifier.rank_cases hr with ⟨x, n, rfl, rfl⟩ | ⟨alike, hi⟩
      · exact iff_of_true rfl (.inr ⟨x, n, rfl, rfl⟩)
      · rw [alike] at h hr
        rw [or_iff_left hi, ← Identifier.compare_eq_eq]
        cases hc : i.compare j with
        | lt => simp
        | eq =>
          rw [hc] at h
          simpa using ih h
        | gt => exact absurd hc hr

theorem comparePrerelease_eq_gt {p q : List Identifier} (hq : Wordy q)
    (h : compareSegments p q ≠ .gt) : comparePrerelease p q = .gt ↔ q ≠ [] ∧ Turned p q := by
  cases q with
  | nil =>
    refine iff_of_false ?_ fun hn => hn.1 rfl
    cases p <;> rintro ⟨⟩
  | cons j q =>
    rw [and_iff_right (List.cons_ne_nil _ _)]
    cases p with
    | cons i p =>
      rw [comparePrerelease_cons]
      exact compareLex_eq_gt h
    | nil =>
      cases j with
      | number n => exact absurd rfl (hq n)
      | word y =>
        refine absurd ?_ h
        rw [compareSegments_nil_cons]
        rfl

/-! ## the two orders -/

section
variable {a b : String} {v w : Version}

/-- Of two versions with the same three numbers, precedence has the one of `a` above that of `b` though
`a` is not above `b` among gems: a number behind the third is smaller in `a`, and the prerelease of `a`
is above that of `b`; or no such number differs, and the prereleases are turned -/
def Reversed (a b : String) (v w : Version) : Prop :=
  v.numbers = w.numbers ∧
    (compareSegments (dropped a) (dropped b) = .lt ∧
        comparePrerelease v.prerelease w.prerelease = .gt ∨
      compareSegments (dropped a) (dropped b) = .eq ∧
        w.prerelease ≠ [] ∧ Turned v.prerelease w.prerelease)

/-- What is not above among gems has no greater numbers, and is not above by precedence, unless the
versions are reversed -/
theorem le_of_compareGems (ha : ofValue (.str a) = .ok v) (hb : ofValue (.str b) = .ok w)
    (h : compareGems a b ≠ .gt) :
    compareRelease v w ≠ .gt ∧ (v.le w = true ↔ ¬ Reversed a b v w) := by
  rw [compareGems_eq ha hb] at h
  have hw : Wordy w.prerelease := by
    rw [prerelease_eq hb]
    exact wordy_prereleaseOf _
  have hle : v.le w = true ↔ ¬ ((compareRelease v w).then
      (comparePrerelease v.prerelease w.prerelease)) = .gt := Ordering.isLE_iff_ne_gt
  rw [hle]
  unfold Reversed
  rw [← compareRelease_eq_eq]
  cases hr : compareRelease v w with
  | gt =>
    rw [hr] at h
    exact absurd rfl h
  | lt => simp
  | eq =>
    rw [hr] at h
    refine ⟨by rintro ⟨⟩, not_congr ?_⟩
    rw [and_iff_right rfl]
    show comparePrerelease v.prerelease w.prerelease = .gt ↔ _
    cases hd : compareSegments (dropped a) (dropped b) with
    | lt => simp
    | gt =>
      rw [hd] at h
      exact absurd rfl h
    | eq =>
      rw [hd] at h
      rw [comparePrerelease_eq_gt hw h]
      simp

end

/-- two versions that differ in a dropped number only -/
theorem le_of_compareGems_fourth :
    ofValue (.str "1.0.0.4.rc1") = .ok ⟨1, 0, 0, [.word ['r', 'c'], .number 1]⟩ ∧
      ofValue (.str "1.0.0.5.rc1") = .ok ⟨1, 0, 0, [.word ['r', 'c'], .number 1]⟩ ∧
      compareGems "1.0.0.4.rc1" "1.0.0.5.rc1" ≠ .gt ∧
      le ⟨1, 0, 0, [.word ['r', 'c'], .number 1]⟩ ⟨1, 0, 0, [.word ['r', 'c'], .number 1]⟩ = true := by
  have ha : ofValue (.str "1.0.0.4.rc1") = .ok ⟨1, 0, 0, [.word ['r', 'c'], .number 1]⟩ := by
    decide +kernel
  have hb : ofValue (.str "1.0.0.5.rc1") = .ok ⟨1, 0, 0, [.word ['r', 'c'], .number 1]⟩ := by
    decide +kernel
  have h : compareGems "1.0.0.4.rc1" "1.0.0.5.rc1" ≠ .gt := by decide +kernel
  refine ⟨ha, hb, h, (le_of_compareGems ha hb h).2.mpr ?_⟩
  rintro ⟨_, ⟨_, hp⟩ | ⟨hd, _⟩⟩
  · exact absurd hp (by decide)
  · exact absurd hd (by decide +kernel)

/-- versions in order among gems, each pair the other way round by precedence: a word against a number,
a word behind the end, a zero behind the end, and a number that is dropped in front of a word -/
theorem not_le_of_compareGems :
    let above (a b : String) : Except RequirementFault Bool := do
      let v ← ofValue (.str a)
      let w ← ofValue (.str b)
      return w.lt v
    (compareGems "1.0.a.b" "1.0.a.1" = .lt ∧ above "1.0.a.b" "1.0.a.1" = .ok true) ∧
      (compareGems "1.0.a.b" "1.0.a" = .lt ∧ above "1.0.a.b" "1.0.a" = .ok true) ∧
      (compareGems "1.0.a.0" "1.0.a" = .eq ∧ above "1.0.a.0" "1.0.a" = .ok true) ∧
      (compareGems "1.0" "1.0.0.1.a" = .lt ∧ above "1.0" "1.0.0.1.a" = .ok true) := by
  decide +kernel

end Version

end Gemfile
