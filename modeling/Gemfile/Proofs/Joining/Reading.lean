import Gemfile.Proofs.Grammar.Statement
import Gemfile.Proofs.Joining.Lexing

/-!
# Reading the same tokens on other lines

Readers look at the lines of tokens only to say where a statement stands and where a fault shows, and
they stop at the end of the file.  So they read the same from tokens that stand on other lines, whatever
stands behind the end of the file, and with any number of readers that is enough.

* `Token.relined g t`   the token `t` on the line that `g` has for its own
* `Ended ts`            the end of the file is among the tokens
* `Alike g R x y`       the results `x` and `y` are values in the relation `R`, or the same fault on a
                        line and on the one that `g` has for it
* `Taken g n f p q`     fewer than `n` tokens are left, and what was read is changed by `f`
* `Alike.bind`          computations are alike if their parts are
* `readersAlike`        values are read alike
* `Call.bare_alike`, `Call.inBrackets_alike`   so are the arguments of a statement
-/

namespace Gemfile
open Token

def Token.relined (g : Nat → Nat) (t : Token) : Token := { t with line := g t.line }

def SyntaxFault.relined (g : Nat → Nat) (f : SyntaxFault) : SyntaxFault := { f with line := g f.line }

def Ended (ts : List Token) : Prop := ∃ t ∈ ts, t.kind = .endOfFile

namespace Token
variable (g : Nat → Nat) (t : Token)

lemma relined_is (m : Mark) : (t.relined g).is m = t.is m := rfl
lemma relined_isKind (k : Kind) : (t.relined g).isKind k = t.isKind k := rfl
lemma relined_reading : (t.relined g).reading = t.reading := rfl
lemma relined_labelName : (t.relined g).labelName = t.labelName := rfl

lemma startsWith_relined (m : Mark) (ts : List Token) :
    startsWith m (ts.map (relined g)) = startsWith m ts := by
  cases ts <;> rfl

lemma skipNewlines_relined (ts : List Token) :
    skipNewlines (ts.map (relined g)) = (skipNewlines ts).map (relined g) := by
  unfold skipNewlines
  rw [List.dropWhile_map]
  rfl

end Token

namespace Ended
variable {ts : List Token}

lemma length_pos (h : Ended ts) : 0 < ts.length := by
  obtain ⟨t, ht, _⟩ := h
  exact List.length_pos_of_mem ht

lemma tail {t : Token} (h : Ended (t :: ts)) (ht : t.kind ≠ .endOfFile) : Ended ts := by
  obtain ⟨u, hu, hk⟩ := h
  rcases List.mem_cons.mp hu with rfl | hu
  · exact absurd hk ht
  · exact ⟨u, hu, hk⟩

lemma skip (h : Ended ts) : Ended (skipNewlines ts) := by
  obtain ⟨nl, hts, hn⟩ := Grammar.skipNewlines_sound ts
  obtain ⟨t, ht, hk⟩ := h
  rw [hts] at ht
  rcases List.mem_append.mp ht with ht | ht
  · rw [hn t ht] at hk
    cases hk
  · exact ⟨t, ht, hk⟩

lemma drop {m : Mark} (h : Ended ts) (hs : startsWith m ts = true) (hm : m.kind ≠ .endOfFile) :
    Ended (ts.drop 1) ∧ (ts.drop 1).length + 1 = ts.length := by
  cases ts with
  | nil => cases hs
  | cons t ts => exact ⟨h.tail (by rw [Grammar.kind_of_is hs]; exact hm), rfl⟩

end Ended

lemma length_skipNewlines_le (ts : List Token) : (skipNewlines ts).length ≤ ts.length :=
  (List.dropWhile_suffix _).length_le

/-! ## results alike -/

section
variable {α β : Type} {g : Nat → Nat}

inductive Alike (g : Nat → Nat) (R : α → α → Prop) : Except SyntaxFault α → Except SyntaxFault α → Prop
  | ok {a b : α} : R a b → Alike g R (.ok a) (.ok b)
  | error (f : SyntaxFault) : Alike g R (.error f) (.error (f.relined g))

lemma Alike.bind {R : α → α → Prop} {S : β → β → Prop} {x y : Except SyntaxFault α}
    {k l : α → Except SyntaxFault β} (h : Alike g R x y)
    (hk : ∀ a b, R a b → Alike g S (k a) (l b)) : Alike g S (x >>= k) (y >>= l) := by
  cases h with
  | ok hab => exact hk _ _ hab
  | error f => exact .error f

lemma Alike.mono {R S : α → α → Prop} {x y : Except SyntaxFault α} (h : Alike g R x y)
    (hS : ∀ a b, R a b → S a b) : Alike g S x y := by
  cases h with
  | ok hab => exact .ok (hS _ _ hab)
  | error f => exact .error f

/-- fewer than `n` tokens are left, with the end of the file among them -/
inductive Moved (g : Nat → Nat) (n : Nat) : List Token → List Token → Prop
  | mk {ts : List Token} : Ended ts → ts.length < n → Moved g n ts (ts.map (relined g))

/-- the same is left, and what was read is changed by `f` -/
inductive Taken (g : Nat → Nat) (n : Nat) (f : α → α) : Parsed α → Parsed α → Prop
  | mk {a : α} {ts : List Token} :
      Ended ts → ts.length < n → Taken g n f (a, ts) (f a, ts.map (relined g))

lemma Taken.mono {n n' : Nat} {f : α → α} (h : n ≤ n') {p q : Parsed α} (ht : Taken g n f p q) :
    Taken g n' f p q := by
  obtain ⟨he, hl⟩ := ht
  exact .mk he (Nat.lt_of_lt_of_le hl h)

end

section
variable {g : Nat → Nat}

lemma expect_alike {m : Mark} (hm : m.kind ≠ .endOfFile) {ts : List Token} (h : Ended ts) :
    Alike g (Moved g ts.length) (expect m ts) (expect m (ts.map (relined g))) := by
  cases ts with
  | nil => exact absurd h.length_pos (by simp)
  | cons t ts =>
    rw [List.map_cons, expect, expect, relined_is]
    split
    · next ht =>
      refine .ok (.mk (h.tail ?_) (Nat.lt_succ_self _))
      rw [Grammar.kind_of_is ht]
      exact hm
    · exact .error _

lemma keyOf_alike (t : Token) (v : Value) :
    Alike g Eq (keyOf t v) (keyOf (t.relined g) v) := by
  unfold keyOf
  split
  · exact .ok rfl
  · exact .error _

/-! ## values -/

/-- `n` readers and any other number that is enough read alike -/
structure ReadersAlike (g : Nat → Nat) (n : Nat) : Prop where
  value : ∀ m ts, Ended ts → 2 * ts.length ≤ n → 2 * ts.length ≤ m →
    Alike g (Taken g ts.length id) (valueFrom n ts) (valueFrom m (ts.map (relined g)))
  items : ∀ m ts, Ended ts → 2 * ts.length + 1 ≤ n → 2 * ts.length + 1 ≤ m →
    Alike g (Taken g ts.length id) (itemsFrom n ts) (itemsFrom m (ts.map (relined g)))
  entries : ∀ m es ts, Ended ts → 2 * ts.length + 1 ≤ n → 2 * ts.length + 1 ≤ m →
    Alike g (Taken g ts.length id) (entriesFrom n es ts) (entriesFrom m es (ts.map (relined g)))

lemma entryKey_alike {read read' : List Token → Except SyntaxFault (Parsed Value)} {t : Token}
    {ts : List Token} (he : Ended (t :: ts))
    (h : Alike g (Taken g (t :: ts).length id) (read (t :: ts))
      (read' ((t :: ts).map (relined g)))) :
    Alike g (Taken g (t :: ts).length id) (entryKey read t ts)
      (entryKey read' (t.relined g) (ts.map (relined g))) := by
  unfold entryKey
  rw [relined_isKind, relined_labelName]
  split
  · next hk =>
    refine .ok (.mk (he.tail ?_) (Nat.lt_succ_self _))
    rw [(Grammar.isKind_iff _ _).mp hk]
    decide
  · refine h.bind ?_
    rintro ⟨v, r⟩ _ ⟨hr, hl⟩
    refine (keyOf_alike t v).bind ?_
    rintro k _ rfl
    refine (expect_alike (by decide) hr).bind ?_
    rintro r' _ ⟨hr', hl'⟩
    exact .ok (.mk hr' (Nat.lt_trans hl' hl))

section
variable {n : Nat} (hn : ReadersAlike g n)
include hn

lemma valueFrom_alike (m : Nat) (ts : List Token) (he : Ended ts) (h : 2 * ts.length ≤ n + 1)
    (h' : 2 * ts.length ≤ m) :
    Alike g (Taken g ts.length id) (valueFrom (n + 1) ts) (valueFrom m (ts.map (relined g))) := by
  cases ts with
  | nil => exact absurd he.length_pos (by simp)
  | cons t ts =>
    rw [List.length_cons] at h h'
    obtain ⟨m, rfl⟩ : ∃ m', m = m' + 1 := ⟨m - 1, by omega⟩
    rw [List.map_cons, valueFrom, valueFrom, relined_reading]
    have hskip := length_skipNewlines_le ts
    cases hr : t.reading with
    | value v =>
      refine .ok (.mk (he.tail ?_) (Nat.lt_succ_self _))
      intro hk
      unfold reading at hr
      rw [hk] at hr
      cases hr
    | interpolated => exact .error _
    | other =>
      simp only [relined_is, skipNewlines_relined]
      split
      · next ho =>
        have he' := (he.tail (by rw [Grammar.kind_of_is ho]; decide)).skip
        refine (hn.items m _ he' (by omega) (by omega)).bind ?_
        rintro ⟨vs, r⟩ _ ⟨hr, hl⟩
        have hl' : r.length < (t :: ts).length := by
          rw [List.length_cons]
          omega
        exact .ok (.mk hr hl')
      · split
        · next ho =>
          have he' := (he.tail (by rw [Grammar.kind_of_is ho]; decide)).skip
          refine (hn.entries m [] _ he' (by omega) (by omega)).bind ?_
          rintro ⟨es, r⟩ _ ⟨hr, hl⟩
          have hl' : r.length < (t :: ts).length := by
            rw [List.length_cons]
            omega
          exact .ok (.mk hr hl')
        · exact .error _

lemma itemsFrom_alike (m : Nat) (ts : List Token) (he : Ended ts) (h : 2 * ts.length + 1 ≤ n + 1)
    (h' : 2 * ts.length + 1 ≤ m) :
    Alike g (Taken g ts.length id) (itemsFrom (n + 1) ts) (itemsFrom m (ts.map (relined g))) := by
  obtain ⟨m, rfl⟩ : ∃ m', m = m' + 1 := ⟨m - 1, by omega⟩
  rw [itemsFrom, itemsFrom, startsWith_relined]
  split
  · next hc =>
    obtain ⟨he', hl⟩ := he.drop hc (by decide)
    exact .ok ((List.map_drop (f := relined g)).symm ▸ .mk he' (by omega))
  · refine (hn.value m ts he (by omega) (by omega)).bind ?_
    rintro ⟨v, r⟩ _ ⟨hr, hl⟩
    dsimp only [id]
    have hskip := length_skipNewlines_le r
    rw [skipNewlines_relined, startsWith_relined]
    split
    · next hc =>
      obtain ⟨hr', hl'⟩ := hr.skip.drop hc (by decide)
      have hskip' := length_skipNewlines_le ((skipNewlines r).drop 1)
      rw [← List.map_drop, skipNewlines_relined]
      refine (hn.items m _ hr'.skip (by omega) (by omega)).bind ?_
      rintro ⟨vs, r'⟩ _ ⟨hr'', hl''⟩
      have hl : r'.length < ts.length := by omega
      exact .ok (.mk hr'' hl)
    · refine (expect_alike (by decide) hr.skip).bind ?_
      rintro r' _ ⟨hr', hl'⟩
      exact .ok (.mk hr' (by omega))

lemma entriesFrom_alike (m : Nat) (es : Options) (ts : List Token) (he : Ended ts)
    (h : 2 * ts.length + 1 ≤ n + 1) (h' : 2 * ts.length + 1 ≤ m) :
    Alike g (Taken g ts.length id) (entriesFrom (n + 1) es ts)
      (entriesFrom m es (ts.map (relined g))) := by
  cases ts with
  | nil => exact absurd he.length_pos (by simp)
  | cons t ts =>
    obtain ⟨m, rfl⟩ : ∃ m', m = m' + 1 := ⟨m - 1, by omega⟩
    rw [List.map_cons, entriesFrom, entriesFrom, relined_is]
    split
    · next hc =>
      exact .ok (.mk (he.tail (by rw [Grammar.kind_of_is hc]; decide)) (Nat.lt_succ_self _))
    · refine (entryKey_alike he (hn.value m (t :: ts) he (by omega) (by omega))).bind ?_
      rintro ⟨k, r⟩ _ ⟨hr, hl⟩
      dsimp only [id]
      have hskip := length_skipNewlines_le r
      rw [skipNewlines_relined]
      refine (hn.value m _ hr.skip (by omega) (by omega)).bind ?_
      rintro ⟨v, r'⟩ _ ⟨hr', hl'⟩
      dsimp only [id]
      have hskip' := length_skipNewlines_le r'
      rw [skipNewlines_relined, startsWith_relined]
      split
      · next hc =>
        obtain ⟨hr'', hl''⟩ := hr'.skip.drop hc (by decide)
        have hskip'' := length_skipNewlines_le ((skipNewlines r').drop 1)
        rw [← List.map_drop, skipNewlines_relined]
        refine (hn.entries m _ _ hr''.skip (by omega) (by omega)).mono ?_
        exact fun _ _ ht => ht.mono (by omega)
      · refine (expect_alike (by decide) hr'.skip).bind ?_
        rintro r'' _ ⟨hr'', hl''⟩
        exact .ok (.mk hr'' (by omega))

end

theorem readersAlike (g : Nat → Nat) (n : Nat) : ReadersAlike g n := by
  induction n with
  | zero =>
    constructor
    · intro m ts he h
      have := he.length_pos
      omega
    · intro m ts he h
      omega
    · intro m es ts he h
      omega
  | succ n ih => exact ⟨valueFrom_alike ih, itemsFrom_alike ih, entriesFrom_alike ih⟩

lemma Value.ofTokens_alike {ts : List Token} (h : Ended ts) :
    Alike g (Taken g ts.length id) (Value.ofTokens ts) (Value.ofTokens (ts.map (relined g))) := by
  refine (readersAlike g _).value _ ts h ?_ ?_
  · unfold readers
    omega
  · unfold readers
    rw [List.length_map]
    omega

/-! ## arguments -/

namespace Call

lemma argument_alike (c : Call) {ts : List Token} (he : Ended ts) :
    Alike g (Taken g ts.length id) (c.argument ts) (c.argument (ts.map (relined g))) := by
  cases ts with
  | nil => exact absurd he.length_pos (by simp)
  | cons t ts =>
    rw [List.map_cons, argument, argument, relined_isKind, relined_labelName]
    split
    · next hk =>
      have hskip := length_skipNewlines_le ts
      have he' : Ended ts := he.tail (by rw [(Grammar.isKind_iff _ _).mp hk]; decide)
      rw [skipNewlines_relined]
      refine (Value.ofTokens_alike he'.skip).bind ?_
      rintro ⟨v, r⟩ _ ⟨hr, hl⟩
      have hlen : r.length < (t :: ts).length := by
        rw [List.length_cons]
        omega
      exact .ok (.mk hr hlen)
    · refine (Value.ofTokens_alike he).bind ?_
      rintro ⟨v, r⟩ _ ⟨hr, hl⟩
      cases r with
      | nil => exact absurd hr.length_pos (by simp)
      | cons u us =>
        rw [List.map_cons]
        dsimp only [id]
        rw [relined_isKind]
        split
        · next hk =>
          have hskip := length_skipNewlines_le us
          have hr' : Ended us := hr.tail (by rw [(Grammar.isKind_iff _ _).mp hk]; decide)
          rw [skipNewlines_relined]
          refine (Value.ofTokens_alike hr'.skip).bind ?_
          rintro ⟨w, r⟩ _ ⟨hr'', hl'⟩
          refine (keyOf_alike t v).bind ?_
          rintro k _ rfl
          have hlen : r.length < (t :: ts).length := by
            rw [List.length_cons] at hl
            omega
          exact .ok (.mk hr'' hlen)
        · split
          · exact .ok (.mk hr hl)
          · exact .error _

lemma argumentsFrom_alike (bracketed : Bool) (n : Nat) (c : Call) {ts : List Token} (he : Ended ts)
    (h : ts.length ≤ n) :
    Alike g (Taken g ts.length id) (argumentsFrom bracketed n c ts)
      (argumentsFrom bracketed n c (ts.map (relined g))) := by
  induction n generalizing c ts with
  | zero =>
    have := he.length_pos
    omega
  | succ n ih =>
    rw [argumentsFrom, argumentsFrom]
    refine (c.argument_alike he).bind ?_
    rintro ⟨c', r⟩ _ ⟨hr, hl⟩
    dsimp only [id]
    -- newlines are passed in brackets only
    obtain ⟨us, hus, hus', hue, hul⟩ : ∃ us, (if bracketed then skipNewlines r else r) = us ∧
        (if bracketed then skipNewlines (r.map (relined g)) else r.map (relined g)) = us.map (relined g) ∧
        Ended us ∧ us.length < ts.length := by
      cases bracketed with
      | false => exact ⟨r, rfl, rfl, hr, hl⟩
      | true =>
        exact ⟨_, rfl, skipNewlines_relined g r, hr.skip,
          Nat.lt_of_le_of_lt (length_skipNewlines_le r) hl⟩
    rw [hus, hus', startsWith_relined]
    split
    · next hc =>
      obtain ⟨hue', hul'⟩ := hue.drop hc (by decide)
      have hskip := length_skipNewlines_le (us.drop 1)
      rw [← List.map_drop, skipNewlines_relined]
      refine (ih c' hue'.skip (by omega)).mono fun _ _ ht => ht.mono (by omega)
    · exact .ok (.mk hue hul)

lemma bare_alike {ts : List Token} (he : Ended ts) :
    Alike g (Taken g ts.length id) (bare ts) (bare (ts.map (relined g))) := by
  unfold bare
  rw [List.length_map]
  refine (argumentsFrom_alike false _ empty he (by omega)).bind ?_
  rintro ⟨c, r⟩ _ ⟨hr, hl⟩
  exact .ok (.mk hr hl)

lemma inBrackets_alike {ts : List Token} (he : Ended ts) :
    Alike g (Taken g (ts.length + 1) id) (inBrackets ts) (inBrackets (ts.map (relined g))) := by
  unfold inBrackets
  dsimp only
  have hskip := length_skipNewlines_le ts
  rw [skipNewlines_relined, startsWith_relined, List.length_map]
  split
  · next hc =>
    obtain ⟨he', hl⟩ := he.skip.drop hc (by decide)
    exact .ok (List.map_drop (f := relined g) ▸ .mk he' (by omega))
  · refine (argumentsFrom_alike true _ empty he.skip (by omega)).bind ?_
    rintro ⟨c, r⟩ _ ⟨hr, hl⟩
    dsimp only [id]
    refine (expect_alike (by decide) hr).bind ?_
    rintro r' _ ⟨hr', hl'⟩
    have hlen : r'.length < ts.length + 1 := by omega
    exact .ok (.mk hr' hlen)

end Call

end

end Gemfile
