import Gemfile.Proofs.Except
import Gemfile.Proofs.Grammar

/-!
# Marks and newlines before a reader

* `is_iff`, `not_is_of_is`, `not_is_of_kind`   when a token is a mark, and when it is not
* `skipNewlines_to`, `skipNewlines_sound`      the newlines that a reader passes
* `expect_sound`, `comma_sound`                the marks that a reader takes
* `Comma.startsWith`, `Comma.skip`             a comma is passed with the newlines around it
-/

namespace Gemfile.Grammar
open Token

/-! ## marks -/

lemma is_iff (t : Token) (m : Mark) : t.is m = true ↔ t.kind = m.kind ∧ t.text = m.text.toList := by
  simp [Token.is]

lemma isKind_iff (t : Token) (k : Kind) : t.isKind k = true ↔ t.kind = k := by
  simp [Token.isKind]

lemma kind_of_is {t : Token} {m : Mark} (h : t.is m = true) : t.kind = m.kind :=
  ((is_iff t m).mp h).1

lemma not_is_of_is {t : Token} {m n : Mark} (h : t.is m = true) (hmn : m ≠ n) :
    t.is n = false := by
  rw [Bool.eq_false_iff]
  intro h'
  obtain ⟨hk, ht⟩ := (is_iff t m).mp h
  obtain ⟨hk', ht'⟩ := (is_iff t n).mp h'
  apply hmn
  obtain ⟨k, s⟩ := m
  obtain ⟨l, r⟩ := n
  have e : s = r := String.toList_injective (ht.symm.trans ht')
  rw [e, show k = l from hk.symm.trans hk']

lemma not_is_of_kind {t : Token} {m : Mark} (h : t.kind ≠ m.kind) : t.is m = false := by
  rw [Bool.eq_false_iff]
  exact fun h' => h (kind_of_is h')

lemma startsWith_cons (m : Mark) (t : Token) (ts : List Token) :
    startsWith m (t :: ts) = t.is m := rfl

/-! ## newlines -/

lemma newlines_nil : Newlines [] := by simp [Newlines]

lemma skipNewlines_of_ne {t : Token} (h : t.kind ≠ .newline) (ts : List Token) :
    skipNewlines (t :: ts) = t :: ts := by
  simp [skipNewlines, Token.isKind, h]

lemma skipNewlines_append {nl : List Token} (h : Newlines nl) (ts : List Token) :
    skipNewlines (nl ++ ts) = skipNewlines ts := by
  induction nl with
  | nil => rfl
  | cons t nl ih =>
    have ht : t.isKind .newline = true := (isKind_iff _ _).mpr (h t (by simp))
    rw [List.cons_append, ← ih fun u hu => h u (List.mem_cons_of_mem _ hu)]
    simp [skipNewlines, ht]

lemma skipNewlines_to {nl : List Token} (h : Newlines nl) {t : Token} (ht : t.kind ≠ .newline)
    (ts : List Token) : skipNewlines (nl ++ t :: ts) = t :: ts := by
  rw [skipNewlines_append h, skipNewlines_of_ne ht]

lemma skipNewlines_sound (ts : List Token) : ∃ nl, ts = nl ++ skipNewlines ts ∧ Newlines nl := by
  refine ⟨ts.takeWhile (·.isKind .newline), ?_, ?_⟩
  · exact List.takeWhile_append_dropWhile.symm
  · intro t ht
    have hall : (ts.takeWhile (·.isKind .newline)).all (·.isKind .newline) = true :=
      List.all_takeWhile
    exact (isKind_iff _ _).mp (List.all_eq_true.mp hall t ht)

lemma expect_sound {m : Mark} {ts rest : List Token} (h : expect m ts = .ok rest) :
    ∃ t, ts = t :: rest ∧ t.is m = true := by
  cases ts with
  | nil => simp [expect] at h
  | cons t ts =>
    rw [expect] at h
    split at h
    · next ht =>
      obtain rfl := Except.ok.inj h
      exact ⟨t, rfl, ht⟩
    · simp at h

lemma expect_of_is {m : Mark} {t : Token} (h : t.is m = true) (ts : List Token) :
    expect m (t :: ts) = .ok ts := by
  simp [expect, h]

/-- the newlines that may stand before a comma -/
def passNewlines (bracketed : Bool) (ts : List Token) : List Token :=
  if bracketed then skipNewlines ts else ts

lemma passNewlines_true (ts : List Token) : passNewlines true ts = skipNewlines ts := rfl

lemma passNewlines_to {b : Bool} {nl : List Token} (h : Newlines nl) (hb : b = false → nl = [])
    {t : Token} (ht : b = true → t.kind ≠ .newline) (ts : List Token) :
    passNewlines b (nl ++ t :: ts) = t :: ts := by
  cases b with
  | false =>
    rw [hb rfl]
    rfl
  | true => exact skipNewlines_to h (ht rfl) ts

lemma passNewlines_sound (b : Bool) (ts : List Token) :
    ∃ nl, ts = nl ++ passNewlines b ts ∧ Newlines nl ∧ (b = false → nl = []) := by
  cases b with
  | false => exact ⟨[], rfl, newlines_nil, fun _ => rfl⟩
  | true =>
    obtain ⟨nl, e, hn⟩ := skipNewlines_sound ts
    exact ⟨nl, e, hn, nofun⟩

lemma comma_sound {b : Bool} {ts : List Token} (h : startsWith comma (passNewlines b ts) = true) :
    ∃ ss, Comma b ss ∧ ts = ss ++ skipNewlines ((passNewlines b ts).drop 1) := by
  obtain ⟨a, ha, hna, hb⟩ := passNewlines_sound b ts
  cases hs : passNewlines b ts with
  | nil => simp [hs, startsWith] at h
  | cons c us =>
    rw [hs] at h
    obtain ⟨nl, hnl, hnb⟩ := skipNewlines_sound us
    refine ⟨a ++ c :: nl, .mk hna hb h hnb, ?_⟩
    rw [ha, hs, List.drop_one, List.tail_cons, List.append_assoc, List.cons_append, ← hnl]

lemma Comma.pass {b : Bool} {ss : List Token} (h : Comma b ss) (ts : List Token) :
    ∃ c r, passNewlines b (ss ++ ts) = c :: r ∧ c.is comma = true ∧
      skipNewlines r = skipNewlines ts := by
  obtain @⟨a, c, nl, hna, hb, hc, hnb⟩ := h
  refine ⟨c, nl ++ ts, ?_, hc, skipNewlines_append hnb ts⟩
  rw [List.append_assoc, List.cons_append,
    passNewlines_to hna hb (fun _ => by rw [kind_of_is hc]; decide)]

lemma Comma.startsWith {b : Bool} {ss : List Token} (h : Comma b ss) (ts : List Token) :
    startsWith comma (passNewlines b (ss ++ ts)) = true := by
  obtain ⟨c, r, e, hc, -⟩ := h.pass ts
  rw [e]
  exact hc

lemma Comma.skip {b : Bool} {ss : List Token} (h : Comma b ss) (ts : List Token) :
    skipNewlines ((passNewlines b (ss ++ ts)).drop 1) = skipNewlines ts := by
  obtain ⟨c, r, e, -, hr⟩ := h.pass ts
  rw [e]
  exact hr

lemma Comma.head {b : Bool} {ss : List Token} (h : Comma b ss) :
    ∃ t us, ss = t :: us ∧ (t.kind = .newline ∨ t.is comma = true) := by
  obtain @⟨a, c, nl, hna, -, hc, -⟩ := h
  cases a with
  | nil => exact ⟨c, nl, rfl, .inr hc⟩
  | cons t a => exact ⟨t, _, rfl, .inl (hna t (by simp))⟩

end Gemfile.Grammar
