import Gemfile.Token.Scan
import Mathlib.Tactic.Lemma

/-!
# Facts about scanned tokens

* `lexeme?_kind`       a lexeme is of one of the kinds in `cuts`, cut off by that kind's function
* `scan_endOfFile`     scanned tokens end with the only mark of the end of the file
* `scan_arrow`         a scanned token that is an arrow is spelled as one
* `scan_label`         a scanned label is a name with a colon behind it
* `scan_line`          a scanned token is on a line of its text
-/

namespace Gemfile.Token

lemma firstCut_mem {cs : List Char} {ks : List (Kind × (List Char → Cut))} {l : Lexeme}
    {r : List Char} (h : firstCut cs ks = some (l, r)) :
    ∃ k ∈ ks, l.kind = k.1 ∧ k.2 cs = some (l.text, r) := by
  induction ks with
  | nil => simp [firstCut] at h
  | cons k ks ih =>
    rw [firstCut] at h
    split at h
    · next t ht =>
      obtain ⟨rfl, rfl⟩ := Prod.mk.inj (Option.some.inj h)
      exact ⟨k, List.mem_cons_self, rfl, ht⟩
    · obtain ⟨k', hk', hl⟩ := ih h
      exact ⟨k', List.mem_cons_of_mem _ hk', hl⟩

lemma lexeme?_kind {cs : List Char} {l : Lexeme} {r : List Char} (h : lexeme? cs = some (l, r)) :
    ∃ k ∈ cuts, l.kind = k.1 ∧ k.2 cs = some (l.text, r) := firstCut_mem h

theorem lexemes_forall {P : Lexeme → Prop}
    (hP : ∀ cs l r, lexeme? cs = some (l, r) → P l) (cs : List Char) : ∀ l ∈ (lexemes cs).1, P l := by
  suffices h : ∀ n, ∀ cs : List Char, cs.length ≤ n → ∀ l ∈ (lexemes cs).1, P l from
    h cs.length cs (Nat.le_refl _)
  intro n
  induction n with
  | zero =>
    intro cs hn
    rw [List.length_eq_zero_iff.mp (Nat.le_zero.mp hn), lexemes_nil]
    simp
  | succ n ih =>
    intro cs hn
    cases hl : lexeme? cs with
    | none =>
      rw [lexemes_of_none hl]
      simp
    | some t =>
      obtain ⟨l, r⟩ := t
      have hr := ih r (by have := length_lexeme?_lt hl; omega)
      rw [lexemes_of_some hl]
      intro l' hl'
      rcases List.mem_cons.mp hl' with rfl | hl'
      · exact hP cs l' r hl
      · exact hr l' hl'

lemma mem_mark {line : Nat} {ls : List Lexeme} {t : Token} (h : t ∈ mark line ls) :
    ⟨t.kind, t.text⟩ ∈ ls := by
  induction ls generalizing line with
  | nil => simp [mark] at h
  | cons l ls ih =>
    rw [mark] at h
    split at h
    · rcases List.mem_cons.mp h with rfl | h
      · exact List.mem_cons_self
      · exact List.mem_cons_of_mem _ (ih h)
    · exact List.mem_cons_of_mem _ (ih h)

lemma scan_ok {cs : List Char} {ts : List Token} (h : scan cs = .ok ts) :
    (lexemes cs).2 = [] ∧
      ts = mark 1 (lexemes cs).1 ++ [endOfFile (1 + lineBreaks (spellings (lexemes cs).1))] := by
  unfold scan at h
  dsimp only at h
  split at h
  · next hr => exact ⟨hr, (Except.ok.inj h).symm⟩
  · simp at h

lemma scan_of_lexemes {cs : List Char} {ls : List Lexeme} (h : lexemes cs = (ls, [])) :
    scan cs = .ok (mark 1 ls ++ [endOfFile (1 + lineBreaks (spellings ls))]) := by
  rw [scan, h]

/-- at most `n` lexemes, cut off in a way that closed texts compute -/
def lexemesWithin : Nat → List Char → List Lexeme × List Char
  | 0, cs => ([], cs)
  | n + 1, cs =>
    match lexeme? cs with
    | none => ([], cs)
    | some (l, r) =>
      let t := lexemesWithin n r
      (l :: t.1, t.2)

/-- no more lexemes than characters are cut off -/
theorem lexemes_eq_within {n : Nat} {cs : List Char} (h : cs.length ≤ n) :
    lexemes cs = lexemesWithin n cs := by
  induction n generalizing cs with
  | zero => rw [List.length_eq_zero_iff.mp (Nat.le_zero.mp h), lexemes_nil, lexemesWithin]
  | succ n ih =>
    cases hl : lexeme? cs with
    | none => rw [lexemes_of_none hl, lexemesWithin, hl]
    | some t =>
      obtain ⟨l, r⟩ := t
      rw [lexemes_of_some hl, lexemesWithin, hl, ih (by have := length_lexeme?_lt hl; omega)]

theorem scan_endOfFile {cs : List Char} {ts : List Token} (h : scan cs = .ok ts) :
    ∃ body e, ts = body ++ [e] ∧ e.kind = .endOfFile ∧ ∀ t ∈ body, t.kind ≠ .endOfFile := by
  obtain ⟨-, rfl⟩ := scan_ok h
  refine ⟨_, _, rfl, rfl, fun t ht => ?_⟩
  have hl : ∀ l ∈ (lexemes cs).1, l.kind ≠ .endOfFile := by
    apply lexemes_forall
    intro cs l r hl
    obtain ⟨k, hk, e, -⟩ := lexeme?_kind hl
    rw [e]
    revert k
    simp [cuts]
  exact hl _ (mem_mark ht)

lemma arrow_text {cs t r : List Char} (h : arrow cs = some (t, r)) : t = "=>".toList := by
  cases cs with
  | nil => simp [arrow, after] at h
  | cons c cs =>
    simp only [arrow, after] at h
    split at h
    · next hc =>
      obtain ⟨u, hu, e⟩ := Option.map_eq_some_iff.mp h
      obtain ⟨rfl, rfl⟩ := Prod.mk.inj e
      cases cs with
      | nil => simp [single] at hu
      | cons d cs =>
        simp only [single] at hu
        split at hu
        · next hd =>
          obtain rfl := Option.some.inj hu
          rw [hc, beq_iff_eq.mp hd]
          rfl
        · simp at hu
    · simp at h

/-- the tokens of a kind that `f` alone cuts off -/
lemma scan_cut {cs : List Char} {ts : List Token} (h : scan cs = .ok ts) {k : Kind}
    {f : List Char → Cut} (hf : ∀ c ∈ cuts, c.1 = k → c.2 = f) (hk : k ≠ .endOfFile) :
    ∀ t ∈ ts, t.kind = k → ∃ ds r, f ds = some (t.text, r) := by
  obtain ⟨-, rfl⟩ := scan_ok h
  have hl : ∀ l ∈ (lexemes cs).1, l.kind = k → ∃ ds r, f ds = some (l.text, r) := by
    apply lexemes_forall
    intro ds l r hl e
    obtain ⟨c, hmem, hc, hcut⟩ := lexeme?_kind hl
    rw [hf c hmem (hc.symm.trans e)] at hcut
    exact ⟨ds, r, hcut⟩
  intro t ht e
  rcases List.mem_append.mp ht with ht | ht
  · exact hl _ (mem_mark ht) e
  · rw [List.mem_singleton.mp ht] at e
    exact absurd e.symm hk

theorem scan_arrow {cs : List Char} {ts : List Token} (h : scan cs = .ok ts) :
    ∀ t ∈ ts, t.kind = .arrow → t.text = "=>".toList := by
  intro t ht hk
  obtain ⟨ds, r, hcut⟩ := scan_cut h (f := arrow) (by simp [cuts]) (by decide) t ht hk
  exact arrow_text hcut

lemma plainName_text {cs t r : List Char} (h : plainName cs = some (t, r)) :
    ∃ c k, t = c :: k ∧ isNameStart c = true ∧ ∀ d ∈ k, isNameChar d = true := by
  cases cs with
  | nil => cases h
  | cons c cs =>
    unfold plainName at h
    dsimp only at h
    split at h
    · next hc =>
      obtain ⟨rfl, -⟩ := Prod.mk.inj (Option.some.inj h)
      exact ⟨c, _, rfl, hc, List.all_eq_true.mp List.all_takeWhile⟩
    · cases h

lemma loneColon_text {cs t r : List Char} (h : loneColon cs = some (t, r)) : t = [':'] := by
  unfold loneColon at h
  split at h
  · split at h
    · cases h
    · exact (Prod.mk.inj (Option.some.inj h)).1.symm
  · cases h

lemma label_text {cs t r : List Char} (h : label cs = some (t, r)) :
    ∃ c k, t = c :: k ++ [':'] ∧ isNameStart c = true ∧ ∀ d ∈ k, isNameChar d = true := by
  obtain ⟨⟨name, cs'⟩, hname, h⟩ := Option.bind_eq_some_iff.mp h
  obtain ⟨⟨colon, r'⟩, hcolon, h⟩ := Option.map_eq_some_iff.mp h
  obtain ⟨rfl, rfl⟩ := Prod.mk.inj h
  obtain ⟨c, k, rfl, hc, hk⟩ := plainName_text hname
  obtain rfl := loneColon_text hcolon
  exact ⟨c, k, rfl, hc, hk⟩

/-- a scanned label is a name with a colon behind it -/
theorem scan_label {cs : List Char} {ts : List Token} (h : scan cs = .ok ts) :
    ∀ t ∈ ts, t.kind = .label → ∃ c k, t.text = c :: k ++ [':'] ∧ isNameStart c = true := by
  intro t ht hk
  obtain ⟨ds, r, hcut⟩ := scan_cut h (f := label) (by simp [cuts]) (by decide) t ht hk
  obtain ⟨c, k, hc, hstart, -⟩ := label_text hcut
  exact ⟨c, k, hc, hstart⟩

lemma mark_line {line : Nat} {ls : List Lexeme} {t : Token} (h : t ∈ mark line ls) :
    line ≤ t.line ∧ t.line ≤ line + lineBreaks (spellings ls) := by
  induction ls generalizing line with
  | nil => simp [mark] at h
  | cons l ls ih =>
    have rest (h : t ∈ mark (line + lineBreaks l.text) ls) :
        line ≤ t.line ∧ t.line ≤ line + lineBreaks (spellings (l :: ls)) := by
      obtain ⟨h1, h2⟩ := ih h
      rw [spellings_cons, lineBreaks_append]
      omega
    rw [mark] at h
    split at h
    · rcases List.mem_cons.mp h with rfl | h
      · exact ⟨Nat.le_refl _, Nat.le_add_right _ _⟩
      · exact rest h
    · exact rest h

theorem scan_line {cs : List Char} {ts : List Token} (h : scan cs = .ok ts) :
    ∀ t ∈ ts, 1 ≤ t.line ∧ t.line ≤ 1 + lineBreaks cs := by
  obtain ⟨hrest, rfl⟩ := scan_ok h
  have hs : spellings (lexemes cs).1 = cs := by
    have := spellings_lexemes cs
    rwa [hrest, List.append_nil] at this
  intro t ht
  rw [hs] at ht
  rcases List.mem_append.mp ht with ht | ht
  · have hline := mark_line ht
    rwa [hs] at hline
  · rw [List.mem_singleton.mp ht]
    exact ⟨Nat.le_add_right _ _, Nat.le_refl _⟩

end Gemfile.Token
