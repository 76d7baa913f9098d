import Gemfile.Token.Lexeme
import Mathlib.Tactic.Lemma

/-!
# Patterns with an order of preference

A pattern matches the beginning of a text in some ways, and prefers some of them: the first of two
alternatives to the second, and more repetitions to fewer.  A way that leaves a text which what
follows does not match is given up for the next one.

* `Pattern.ways p cs`     the ways in which `p` matches the beginning of `cs`, the preferred one first,
                          each with what it takes and what it leaves
* `Pattern.first? p cs`   the preferred one
* `Pattern.ways_seq_many`   a repetition and what follows it: one more repetition, or what follows
* `Pattern.first?_run`    a run of characters of a class takes as many as there are, if what follows
                          matches everywhere or in front of none of them
-/

namespace Gemfile

inductive Pattern where
  | empty
  | char (p : Char → Bool)
  | seq (p q : Pattern)
  | alt (p q : Pattern)
  | many (p : Pattern)
  /-- takes nothing, in front of any character but those of a class -/
  | notBefore (p : Char → Bool)

namespace Pattern

/-- what is taken off a text in each way, and what is left -/
abbrev Ways := List (List Char × List Char)

/-- each way with every way to go on -/
def followed (ts : Ways) (next : List Char → Ways) : Ways :=
  ts.flatMap fun t => (next t.2).map fun u => (t.1 ++ u.1, u.2)

/-- at most `n` repetitions -/
def again (step : List Char → Ways) : Nat → List Char → Ways
  | 0, cs => [([], cs)]
  | n + 1, cs => followed (step cs) (again step n) ++ [([], cs)]

/-- a repetition takes a character at least, so there are no more of them than characters -/
def ways : Pattern → List Char → Ways
  | .empty, cs => [([], cs)]
  | .char p, cs =>
    match cs with
    | [] => []
    | c :: r => if p c then [([c], r)] else []
  | .seq p q, cs => followed (ways p cs) (ways q)
  | .alt p q, cs => ways p cs ++ ways q cs
  | .many p, cs => again (ways p) cs.length cs
  | .notBefore p, cs => if cs.head?.any p then [] else [([], cs)]

def first? (p : Pattern) (cs : List Char) : Option (List Char × List Char) := (ways p cs).head?

def optional (p : Pattern) : Pattern := .alt p .empty

/-- the character `c` -/
def is (c : Char) : Pattern := .char (· == c)

/-- any character but `c` -/
def isNot (c : Char) : Pattern := .char (· != c)

/-! ## ways to go on -/

lemma followed_nil (next : List Char → Ways) : followed [] next = [] := rfl

lemma followed_cons (t : List Char × List Char) (ts : Ways) (next : List Char → Ways) :
    followed (t :: ts) next =
      ((next t.2).map fun u => (t.1 ++ u.1, u.2)) ++ followed ts next := rfl

lemma followed_append (ts us : Ways) (next : List Char → Ways) :
    followed (ts ++ us) next = followed ts next ++ followed us next := List.flatMap_append

/-- a way that takes nothing -/
lemma followed_here (cs : List Char) (next : List Char → Ways) :
    followed [([], cs)] next = next cs := by
  rw [followed_cons, followed_nil, List.append_nil]
  exact List.map_id _

lemma followed_one (c : Char) (r : List Char) (next : List Char → Ways) :
    followed [([c], r)] next = (next r).map fun u => (c :: u.1, u.2) := by
  rw [followed_cons, followed_nil, List.append_nil]
  rfl

lemma followed_map (t : List Char) (us : Ways) (next : List Char → Ways) :
    followed (us.map fun u => (t ++ u.1, u.2)) next =
      (followed us next).map fun v => (t ++ v.1, v.2) := by
  induction us with
  | nil => rfl
  | cons u us ih =>
    rw [List.map_cons, followed_cons, followed_cons, ih, List.map_append, List.map_map]
    simp only [Function.comp_def, List.append_assoc]

lemma followed_followed (ts : Ways) (f g : List Char → Ways) :
    followed (followed ts f) g = followed ts fun cs => followed (f cs) g := by
  induction ts with
  | nil => rfl
  | cons t ts ih => rw [followed_cons, followed_cons, followed_append, ih, followed_map]

lemma followed_congr {ts : Ways} {f g : List Char → Ways} (h : ∀ t ∈ ts, f t.2 = g t.2) :
    followed ts f = followed ts g := by
  induction ts with
  | nil => rfl
  | cons t ts ih =>
    obtain ⟨h1, h2⟩ := List.forall_mem_cons.mp h
    rw [followed_cons, followed_cons, h1, ih h2]

/-! ## repetition -/

/-- every way takes a character at least -/
def Shortens (p : Pattern) : Prop := ∀ cs, ∀ t ∈ p.ways cs, t.2.length < cs.length

lemma ways_char_cons (p : Char → Bool) (c : Char) (r : List Char) :
    ways (.char p) (c :: r) = if p c then [([c], r)] else [] := rfl

lemma shortens_char (p : Char → Bool) : Shortens (.char p) := by
  intro cs t ht
  cases cs with
  | nil => cases ht
  | cons c r =>
    rw [ways_char_cons] at ht
    split at ht
    · rw [List.mem_singleton.mp ht]
      exact Nat.lt_succ_self _
    · cases ht

lemma Shortens.seq {p q : Pattern} (hp : Shortens p) (hq : Shortens q) : Shortens (.seq p q) := by
  intro cs t ht
  obtain ⟨u, hu, ht⟩ := List.mem_flatMap.mp ht
  obtain ⟨v, hv, rfl⟩ := List.mem_map.mp ht
  exact Nat.lt_trans (hq u.2 v hv) (hp cs u hu)

lemma Shortens.alt {p q : Pattern} (hp : Shortens p) (hq : Shortens q) : Shortens (.alt p q) := by
  intro cs t ht
  rcases List.mem_append.mp ht with ht | ht
  · exact hp cs t ht
  · exact hq cs t ht

/-- as many repetitions as there are characters are enough -/
lemma again_eq {p : Pattern} (hp : Shortens p) {n m : Nat} {cs : List Char} (hn : cs.length ≤ n)
    (hm : cs.length ≤ m) : again p.ways n cs = again p.ways m cs := by
  have nil : ∀ k, again p.ways k [] = [([], [])] := by
    intro k
    cases k with
    | zero => rfl
    | succ k =>
      have h : p.ways [] = [] := List.eq_nil_iff_forall_not_mem.mpr fun t ht => by
        have := hp [] t ht
        simp at this
      rw [again, h, followed_nil, List.nil_append]
  induction n generalizing m cs with
  | zero =>
    rw [List.length_eq_zero_iff.mp (Nat.le_zero.mp hn), nil, nil]
  | succ n ih =>
    cases m with
    | zero => rw [List.length_eq_zero_iff.mp (Nat.le_zero.mp hm), nil, nil]
    | succ m =>
      have h : ∀ t ∈ p.ways cs, again p.ways n t.2 = again p.ways m t.2 := by
        intro t ht
        have := hp cs t ht
        exact ih (by omega) (by omega)
      rw [again, again, followed_congr h]

lemma ways_many {p : Pattern} (hp : Shortens p) (cs : List Char) :
    ways (.many p) cs = followed (ways p cs) (ways (.many p)) ++ [([], cs)] := by
  have h : ∀ t ∈ p.ways cs, again p.ways cs.length t.2 = ways (.many p) t.2 := by
    intro t ht
    have := hp cs t ht
    exact again_eq hp (by omega) (Nat.le_refl _)
  rw [← followed_congr h]
  show again p.ways cs.length cs = again p.ways (cs.length + 1) cs
  exact again_eq hp (Nat.le_refl _) (Nat.le_succ _)

theorem ways_seq_many {p : Pattern} (hp : Shortens p) (q : Pattern) (cs : List Char) :
    ways (.seq (.many p) q) cs =
      followed (ways p cs) (ways (.seq (.many p) q)) ++ ways q cs := by
  show followed (ways (.many p) cs) (ways q) = _
  rw [ways_many hp, followed_append, followed_here, followed_followed]
  rfl

/-! ## the preferred way -/

/-- what is put in front of the way that a pattern prefers -/
def prepend (t : List Char) (u : List Char × List Char) : List Char × List Char := (t ++ u.1, u.2)

lemma map_prepend_nil (x : Option (List Char × List Char)) : x.map (prepend []) = x := by
  have h : prepend [] = id := rfl
  rw [h, Option.map_id]
  rfl

lemma first?_char (p : Char → Bool) (c : Char) (r : List Char) :
    first? (.char p) (c :: r) = if p c then some ([c], r) else none := by
  unfold first?
  rw [ways_char_cons]
  split <;> rfl

lemma first?_seq_char (p : Char → Bool) (q : Pattern) (c : Char) (r : List Char) :
    first? (.seq (.char p) q) (c :: r) =
      if p c then (first? q r).map (prepend [c]) else none := by
  show (followed (ways (.char p) (c :: r)) (ways q)).head? = _
  rw [ways_char_cons]
  split
  · rw [followed_one, List.head?_map]
    rfl
  · rfl

lemma first?_alt (p q : Pattern) (cs : List Char) :
    first? (.alt p q) cs = (first? p cs).or (first? q cs) := List.head?_append

lemma first?_optional (p : Pattern) (cs : List Char) :
    first? (optional p) cs = some ((first? p cs).getD ([], cs)) := by
  show first? (.alt p .empty) cs = _
  rw [first?_alt]
  cases first? p cs <;> rfl

lemma first?_seq_optional (p q : Pattern) (cs : List Char) :
    first? (.seq (optional p) q) cs = (first? (.seq p q) cs).or (first? q cs) := by
  show (followed (ways p cs ++ [([], cs)]) (ways q)).head? = _
  rw [followed_append, followed_here, List.head?_append]
  rfl

/-- one more repetition where it has one way at most, or what follows -/
lemma first?_more {p : Pattern} (hp : Shortens p) (q : Pattern) {cs : List Char}
    (h : (ways p cs).length ≤ 1) :
    first? (.seq (.many p) q) cs =
      ((first? p cs).bind fun t =>
        (first? (.seq (.many p) q) t.2).map (prepend t.1)).or (first? q cs) := by
  show (ways _ cs).head? = _
  rw [ways_seq_many hp, List.head?_append]
  show _ = (((ways p cs).head?).bind fun t => _).or _
  rcases hw : ways p cs with _ | ⟨t, ts⟩
  · rfl
  · obtain rfl : ts = [] := by
      rw [hw, List.length_cons] at h
      exact List.length_eq_zero_iff.mp (by omega)
    rw [followed_cons, followed_nil, List.append_nil, List.head?_map]
    rfl

lemma first?_seq_many_char {p : Char → Bool} (q : Pattern) (c : Char) (r : List Char) :
    first? (.seq (.many (.char p)) q) (c :: r) =
      if p c then ((first? (.seq (.many (.char p)) q) r).map (prepend [c])).or (first? q (c :: r))
      else first? q (c :: r) := by
  have h : (ways (.char p) (c :: r)).length ≤ 1 := by
    rw [ways_char_cons]
    split
    · exact Nat.le_refl 1
    · exact Nat.zero_le 1
  rw [first?_more (shortens_char p) q h, first?_char]
  split <;> rfl

/-- behind a run of characters that may be followed by anything, or by none of them -/
theorem first?_run {p : Char → Bool} {q : Pattern}
    (h : (∀ cs, (first? q cs).isSome) ∨ ∀ c r, p c = true → first? q (c :: r) = none)
    (cs : List Char) :
    first? (.seq (.many (.char p)) q) cs =
      (first? q (cs.dropWhile p)).map (prepend (cs.takeWhile p)) := by
  induction cs with
  | nil =>
    show (ways (.seq (.many (.char p)) q) []).head? = (first? q []).map (prepend [])
    rw [ways_seq_many (shortens_char p), map_prepend_nil]
    rfl
  | cons c r ih =>
    rw [first?_seq_many_char]
    by_cases hc : p c = true
    · rw [if_pos hc, List.takeWhile_cons_of_pos hc, List.dropWhile_cons_of_pos hc, ih,
        Option.map_map]
      -- the longer run is preferred, and the shorter one is no way or not needed
      rcases h with h | h
      · obtain ⟨t, ht⟩ := Option.isSome_iff_exists.mp (h (r.dropWhile p))
        rw [ht]
        rfl
      · rw [h c r hc, Option.or_none]
        rfl
    · rw [if_neg hc, List.takeWhile_cons_of_neg hc, List.dropWhile_cons_of_neg hc, map_prepend_nil]

lemma first?_many_char (p : Char → Bool) (cs : List Char) :
    first? (.many (.char p)) cs = some (cs.takeWhile p, cs.dropWhile p) := by
  have h : ways (.seq (.many (.char p)) .empty) = ways (.many (.char p)) := by
    funext cs
    show followed _ (ways .empty) = _
    induction ways (.many (.char p)) cs with
    | nil => rfl
    | cons t ts ih =>
      rw [followed_cons, ih]
      simp [ways]
  have h1 := first?_run (p := p) (q := .empty) (.inl fun _ => rfl) cs
  unfold first? at h1 ⊢
  rw [← h, h1]
  simp [ways, prepend]

end Pattern

end Gemfile
