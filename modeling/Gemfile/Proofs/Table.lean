import Gemfile.Table
import Mathlib.Tactic.Lemma

/-!
# Tables after filing

* `Table.get?_put`, `Table.keys_put`   what is found, and in which order, after one filing
* `Table.putAll_of_separate`           filing what has no repetitions
* `Table.putAll_putAll`                filing the result of some filings is filing as they did
* `among_distinct`, `distinct_separate`   a list without repetitions has the same keys, each once
* `distinctFrom_append`   repetitions of a list in two parts
-/

namespace Gemfile

section
variable {κ Key α : Type} [Keyed κ Key] [DecidableEq Key]

lemma sameKey_iff (k l : κ) : sameKey k l = true ↔ Keyed.key k = Keyed.key l := by
  unfold sameKey
  exact decide_eq_true_iff

lemma sameKey_comm (k l : κ) : sameKey k l = sameKey l k := by
  rw [Bool.eq_iff_iff, sameKey_iff, sameKey_iff]
  exact eq_comm

lemma sameKey_congr {k l : κ} (h : sameKey k l = true) (m : κ) : sameKey k m = sameKey l m := by
  rw [Bool.eq_iff_iff, sameKey_iff, sameKey_iff, (sameKey_iff k l).mp h]

lemma among_cons (k l : κ) (ks : List κ) : among k (l :: ks) = (sameKey k l || among k ks) := rfl

lemma among_append (k : κ) (ks ls : List κ) : among k (ks ++ ls) = (among k ks || among k ls) :=
  List.any_append

lemma among_iff (k : κ) (ks : List κ) : among k ks = true ↔ ∃ l ∈ ks, sameKey k l = true := by
  unfold among
  exact List.any_eq_true

lemma among_congr {k l : κ} (h : sameKey k l = true) (ks : List κ) : among k ks = among l ks := by
  unfold among
  rw [funext (sameKey_congr h)]

/-- no name of one list has a key of the other, from either side -/
lemma all_not_among (ks ls : List κ) :
    (ks.all fun k => !among k ls) = !ls.any fun l => among l ks := by
  rw [Bool.eq_iff_iff, List.all_eq_true, Bool.not_eq_true', List.any_eq_false]
  simp only [Bool.not_eq_true', ← Bool.not_eq_true, among_iff, not_exists, not_and]
  constructor
  · intro h l hl k hk hs
    rw [sameKey_comm] at hs
    exact h k hk l hl hs
  · intro h k hk l hl hs
    rw [sameKey_comm] at hs
    exact h l hl k hk hs

/-- no two names of the list have one key -/
def Separate (ks : List κ) : Prop := ks.Pairwise fun k l => sameKey k l = false

lemma distinctFrom_congr {seen seen' : List κ} (h : ∀ k, among k seen = among k seen')
    (ks : List κ) : distinctFrom seen ks = distinctFrom seen' ks := by
  induction ks generalizing seen seen' with
  | nil => rfl
  | cons k ks ih =>
    have h1 : ∀ l, among l (k :: seen) = among l (k :: seen') := by
      intro l
      rw [among_cons, among_cons, h l]
    rw [distinctFrom, distinctFrom, h k, ih h, ih h1]

/-- what has been seen and what is new together have the keys of both lists -/
lemma among_distinctFrom (l : κ) (seen ks : List κ) :
    (among l seen || among l (distinctFrom seen ks)) = (among l seen || among l ks) := by
  induction ks generalizing seen with
  | nil => rfl
  | cons k ks ih =>
    rw [distinctFrom, among_cons]
    by_cases hk : among k seen = true
    · rw [if_pos hk, ih]
      by_cases hl : sameKey l k = true
      · rw [among_congr hl, hk]
        simp
      · simp [hl]
    · rw [if_neg hk, among_cons]
      have h1 := ih (k :: seen)
      rw [among_cons] at h1
      cases h2 : sameKey l k <;> simp [h2] at h1 ⊢
      exact h1

theorem among_distinct (l : κ) (ks : List κ) : among l (distinct ks) = among l ks :=
  among_distinctFrom l [] ks

lemma among_of_mem_distinctFrom {seen ks : List κ} {k : κ} (h : k ∈ distinctFrom seen ks) :
    among k seen = false := by
  induction ks generalizing seen with
  | nil => cases h
  | cons l ks ih =>
    rw [distinctFrom] at h
    by_cases hl : among l seen = true
    · rw [if_pos hl] at h
      exact ih h
    · rw [if_neg hl] at h
      rcases List.mem_cons.mp h with rfl | h
      · simpa using hl
      · have h1 := ih h
        rw [among_cons, Bool.or_eq_false_iff] at h1
        exact h1.2

lemma mem_of_mem_distinctFrom {seen ks : List κ} {k : κ} (h : k ∈ distinctFrom seen ks) :
    k ∈ ks := by
  induction ks generalizing seen with
  | nil => cases h
  | cons l ks ih =>
    rw [distinctFrom] at h
    by_cases hl : among l seen = true
    · rw [if_pos hl] at h
      exact List.mem_cons_of_mem l (ih h)
    · rw [if_neg hl] at h
      rcases List.mem_cons.mp h with rfl | h
      · exact List.mem_cons_self
      · exact List.mem_cons_of_mem l (ih h)

lemma distinctFrom_separate (seen ks : List κ) : Separate (distinctFrom seen ks) := by
  induction ks generalizing seen with
  | nil => exact .nil
  | cons k ks ih =>
    rw [distinctFrom]
    by_cases hk : among k seen = true
    · rw [if_pos hk]
      exact ih seen
    · rw [if_neg hk]
      refine List.Pairwise.cons ?_ (ih (k :: seen))
      intro l hl
      have h1 := among_of_mem_distinctFrom hl
      rw [among_cons, Bool.or_eq_false_iff] at h1
      rw [sameKey_comm]
      exact h1.1

theorem distinct_separate (ks : List κ) : Separate (distinct ks) := distinctFrom_separate [] ks

lemma distinctFrom_append (seen ks ls : List κ) :
    distinctFrom seen (ks ++ ls) =
      distinctFrom seen ks ++ distinctFrom (seen ++ distinctFrom seen ks) ls := by
  induction ks generalizing seen with
  | nil => simp [distinctFrom]
  | cons k ks ih =>
    rw [List.cons_append, distinctFrom, distinctFrom]
    by_cases hk : among k seen = true
    · rw [if_pos hk, if_pos hk, ih]
    · rw [if_neg hk, if_neg hk, ih]
      have h1 : ∀ l, among l (k :: seen ++ distinctFrom (k :: seen) ks)
          = among l (seen ++ k :: distinctFrom (k :: seen) ks) := by
        intro l
        rw [List.cons_append, among_cons, among_append, among_append, among_cons]
        exact Bool.or_left_comm _ _ _
      rw [distinctFrom_congr h1, List.cons_append]

namespace Table

lemma get?_cons (k : κ) (e : κ × α) (t : Table κ α) :
    get? k (e :: t) = if sameKey k e.1 then some e.2 else get? k t := rfl

lemma put_cons (k : κ) (a : α) (e : κ × α) (t : Table κ α) :
    put k a (e :: t) = if sameKey k e.1 then (e.1, a) :: t else e :: put k a t := rfl

lemma get?_congr {k l : κ} (h : sameKey k l = true) (t : Table κ α) : get? k t = get? l t := by
  induction t with
  | nil => rfl
  | cons e t ih => rw [get?_cons, get?_cons, sameKey_congr h, ih]

lemma mem_of_get? {k : κ} {a : α} {t : Table κ α} (h : get? k t = some a) :
    ∃ e ∈ t, e.2 = a := by
  induction t with
  | nil => cases h
  | cons e t ih =>
    rw [get?_cons] at h
    by_cases hk : sameKey k e.1 = true
    · rw [if_pos hk] at h
      exact ⟨e, List.mem_cons_self, Option.some.inj h⟩
    · rw [if_neg hk] at h
      obtain ⟨e', he, ha⟩ := ih h
      exact ⟨e', List.mem_cons_of_mem e he, ha⟩

lemma get?_of_mem {e : κ × α} {t : Table κ α} (h : Separate (keys t)) (he : e ∈ t) :
    get? e.1 t = some e.2 := by
  induction t with
  | nil => cases he
  | cons e' t ih =>
    obtain ⟨h1, h2⟩ := List.pairwise_cons.mp h
    rw [get?_cons]
    rcases List.mem_cons.mp he with rfl | he
    · exact if_pos ((sameKey_iff e.1 e.1).mpr rfl)
    · have h3 : ¬ sameKey e.1 e'.1 = true := by
        rw [sameKey_comm, h1 e.1 (List.mem_map_of_mem he)]
        exact Bool.false_ne_true
      rw [if_neg h3]
      exact ih h2 he

theorem get?_put (k l : κ) (a : α) (t : Table κ α) :
    get? l (put k a t) = if sameKey l k then some a else get? l t := by
  induction t with
  | nil => rfl
  | cons e t ih =>
    rw [put_cons]
    by_cases h : sameKey k e.1 = true
    · rw [if_pos h, get?_cons, get?_cons, sameKey_comm l k, sameKey_congr h, sameKey_comm e.1 l]
      by_cases h1 : sameKey l e.1 = true
      · rw [if_pos h1, if_pos h1]
      · rw [if_neg h1, if_neg h1, if_neg h1]
    · rw [if_neg h, get?_cons, get?_cons, ih]
      by_cases h1 : sameKey l e.1 = true
      · have h2 : ¬sameKey l k = true := by
          intro h2
          rw [sameKey_congr h2] at h1
          exact h h1
        rw [if_pos h1, if_neg h2, if_pos h1]
      · rw [if_neg h1, if_neg h1]

theorem keys_put (k : κ) (a : α) (t : Table κ α) :
    keys (put k a t) = keys t ++ distinctFrom (keys t) [k] := by
  induction t with
  | nil => rfl
  | cons e t ih =>
    rw [put_cons]
    by_cases h : sameKey k e.1 = true
    · rw [if_pos h]
      simp [keys, distinctFrom, among, h]
    · rw [if_neg h]
      simp only [Bool.not_eq_true] at h
      simp only [keys, distinctFrom, among, List.map_cons, List.any_cons, h, Bool.false_or,
        List.cons_append, List.cons.injEq, true_and] at ih ⊢
      exact ih

lemma separate_put {t : Table κ α} (h : Separate (keys t)) (k : κ) (a : α) :
    Separate (keys (put k a t)) := by
  rw [keys_put]
  refine List.pairwise_append.mpr ⟨h, distinctFrom_separate _ _, ?_⟩
  intro l hl m hm
  rw [← Bool.not_eq_true, sameKey_comm]
  intro hs
  have h1 : among m (keys t) = true := (among_iff _ _).mpr ⟨l, hl, hs⟩
  rw [among_of_mem_distinctFrom hm] at h1
  cases h1

theorem separate_putAll {t : Table κ α} (h : Separate (keys t)) (u : Table κ α) :
    Separate (keys (putAll t u)) := by
  induction u generalizing t with
  | nil => exact h
  | cons e u ih => exact ih (separate_put h e.1 e.2)

lemma put_put {k l : κ} (h : sameKey k l = true) (a b : α) (t : Table κ α) :
    put k a (put l b t) = put l a t := by
  induction t with
  | nil =>
    rw [put_nil, put_nil, put_cons, if_pos h]
  | cons e t ih =>
    rw [put_cons, put_cons, ← sameKey_congr h]
    by_cases hk : sameKey k e.1 = true
    · rw [if_pos hk, if_pos hk, put_cons, if_pos hk]
    · rw [if_neg hk, if_neg hk, put_cons, if_neg hk, ih]

/-- filing under a name that has its place already may wait for that under another one -/
lemma put_comm {k l : κ} {t : Table κ α} (hk : among k (keys t) = true)
    (h : sameKey k l = false) (a b : α) : put k a (put l b t) = put l b (put k a t) := by
  induction t with
  | nil => cases hk
  | cons e t ih =>
    rw [put_cons, put_cons]
    by_cases hl : sameKey l e.1 = true
    · have hke : ¬sameKey k e.1 = true := by
        rw [sameKey_comm, ← sameKey_congr hl, sameKey_comm, h]
        exact Bool.false_ne_true
      rw [if_pos hl, if_neg hke, put_cons, if_neg hke, put_cons, if_pos hl]
    · rw [if_neg hl]
      by_cases hke : sameKey k e.1 = true
      · rw [if_pos hke, put_cons, if_pos hke, put_cons, if_neg hl]
      · rw [if_neg hke, put_cons, if_neg hke, put_cons, if_neg hl]
        refine congrArg (e :: ·) (ih ?_)
        rcases Bool.or_eq_true_iff.mp hk with h1 | h1
        · exact absurd h1 hke
        · exact h1

lemma put_of_new {k : κ} {t : Table κ α} (h : among k (keys t) = false) (a : α) :
    put k a t = t ++ [(k, a)] := by
  induction t with
  | nil => rfl
  | cons e t ih =>
    have h1 : sameKey k e.1 = false ∧ among k (keys t) = false := Bool.or_eq_false_iff.mp h
    rw [put_cons, if_neg (by simp [h1.1]), ih h1.2, List.cons_append]

theorem putAll_of_separate {t u : Table κ α} (h : Separate (keys (t ++ u))) :
    putAll t u = t ++ u := by
  induction u generalizing t with
  | nil => rw [putAll_nil, List.append_nil]
  | cons e u ih =>
    have hk : keys (t ++ e :: u) = keys t ++ e.1 :: keys u := List.map_append
    have h1 : among e.1 (keys t) = false := by
      rw [← Bool.not_eq_true, among_iff]
      rintro ⟨l, hl, hs⟩
      rw [hk] at h
      have h2 := (List.pairwise_append.mp h).2.2 l hl e.1 List.mem_cons_self
      rw [sameKey_comm, hs] at h2
      cases h2
    have h3 : t ++ e :: u = (t ++ [e]) ++ u := by simp
    rw [putAll_cons, put_of_new h1, h3]
    exact ih (h3 ▸ h)

lemma put_putAll {k : κ} {t u : Table κ α} (hk : among k (keys t) = true)
    (hu : among k (keys u) = false) (a : α) : put k a (putAll t u) = putAll (put k a t) u := by
  induction u generalizing t with
  | nil => rfl
  | cons e u ih =>
    have h1 : sameKey k e.1 = false ∧ among k (keys u) = false := Bool.or_eq_false_iff.mp hu
    have h2 : among k (keys (put e.1 e.2 t)) = true := by
      rw [keys_put, among_append, hk]
      rfl
    rw [putAll_cons, putAll_cons, ih h2 h1.2, put_comm hk h1.1]

lemma putAll_put {u : Table κ α} (hu : Separate (keys u)) (t : Table κ α) (k : κ) (a : α) :
    putAll t (put k a u) = put k a (putAll t u) := by
  induction u generalizing t with
  | nil => rfl
  | cons e u ih =>
    obtain ⟨h1, h2⟩ := List.pairwise_cons.mp hu
    rw [put_cons, putAll_cons t e u]
    by_cases hk : sameKey k e.1 = true
    · -- the entry is filed again; no later one has its key, so it could have been filed last
      have h3 : among k (keys u) = false := by
        rw [among_congr hk, ← Bool.not_eq_true, among_iff]
        rintro ⟨l, hl, hs⟩
        rw [h1 l hl] at hs
        cases hs
      have h4 : among k (keys (put e.1 e.2 t)) = true := by
        rw [keys_put, among_append, among_distinctFrom, among_cons, hk]
        simp
      rw [if_pos hk, putAll_cons, put_putAll h4 h3, put_put hk]
    · rw [if_neg hk, putAll_cons, ih h2]

theorem putAll_putAll {u : Table κ α} (hu : Separate (keys u)) (t v : Table κ α) :
    putAll t (putAll u v) = putAll (putAll t u) v := by
  induction v generalizing u with
  | nil => rfl
  | cons e v ih => rw [putAll_cons, putAll_cons, ih (separate_put hu e.1 e.2), putAll_put hu]

end Table

end

lemma separate_of_nodup {ks : List String} (h : ks.Nodup) : Separate ks := by
  refine List.Pairwise.imp (fun {k l} hne => ?_) h
  rw [← Bool.not_eq_true, sameKey_iff]
  exact hne

end Gemfile
