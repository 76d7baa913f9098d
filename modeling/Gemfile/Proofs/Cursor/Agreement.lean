import Gemfile.Proofs.Cursor.Readers
import Gemfile.Proofs.Joining.Reading

/-!
# Runs that agree with what is read from the tokens left

* `Frame.Above c f`     the call `f` is further on than `c`, or of lower rank at the same place
* `Event.Sound n`       the event is inside of `n` tokens; calls go down, and turns go on
* `Agrees ts k r o`     the run `r` over `ts` is sound and ends as `o`: with the same value, at the tokens
                        left, past `k` and before the last token; or with the same fault, on the line of
                        a token
* `Agrees.bind`, `agrees_look`, `agrees_take`, …   one rule for each kind of step

Place and rank are the measure of the readers: each call goes on or goes down in rank, so a reader that
is called again stands further on.
-/

namespace Gemfile.Cursor
open Token

/-! ## calls -/

/-- before it has passed a token, a reader calls readers of lower rank only -/
def Reader.rank : Reader → Nat
  | .arguments => 2
  | .statements | .argument | .array | .hash => 1
  | .statement | .value => 0

def Frame.Above (c f : Frame) : Prop :=
  c.start < f.start ∨ c.start = f.start ∧ f.reader.rank < c.reader.rank

lemma Frame.Above.trans {c d f : Frame} (h : c.Above d) (h' : d.Above f) : c.Above f := by
  unfold Above at *
  omega

/-- all readers at work may call `f` -/
def Admits (active : List Frame) (f : Frame) : Prop := ∀ c ∈ active, c.Above f

namespace Admits
variable {active : List Frame} {r r' : Reader} {i j : Nat}

lemma nil (f : Frame) : Admits [] f := by
  intro c hc
  cases hc

lemma mono (h : Admits active ⟨r, i⟩) (hij : i ≤ j) : Admits active ⟨r, j⟩ := by
  intro c hc
  rcases h c hc with h | ⟨h, hr⟩
  · exact .inl (Nat.lt_of_lt_of_le h hij)
  · rcases Nat.eq_or_lt_of_le hij with rfl | hlt
    · exact .inr ⟨h, hr⟩
    · exact .inl (h ▸ hlt)

lemma push (h : Admits active ⟨r, i⟩) (hf : Frame.Above ⟨r, i⟩ ⟨r', j⟩) :
    Admits (⟨r, i⟩ :: active) ⟨r', j⟩ := by
  intro c hc
  rcases List.mem_cons.mp hc with rfl | hc
  · exact hf
  · exact (h c hc).trans hf

/-- further on, any reader may be called -/
lemma later (h : Admits active ⟨r, i⟩) (r' : Reader) (hij : i < j) :
    Admits (⟨r, i⟩ :: active) ⟨r', j⟩ := h.push (.inl hij)

/-- at the same place, readers of lower rank -/
lemma lower (h : Admits active ⟨r, i⟩) (r' : Reader) (hr : r'.rank < r.rank) (hij : i ≤ j) :
    Admits (⟨r, i⟩ :: active) ⟨r', j⟩ :=
  have here : Frame.Above ⟨r, i⟩ ⟨r', i⟩ := .inr ⟨rfl, hr⟩
  (h.push here).mono hij

end Admits

/-! ## agreement -/

def Event.Sound (n : Nat) : Event → Prop
  | .look i => i < n
  | .take i => i < n
  | .call f active => Admits active f
  | .turn _ i j => i < j

inductive Agrees {α : Type} (ts : List Token) (k : Nat) :
    Run α → Except SyntaxFault (Parsed α) → Prop
  | ok {es : List Event} {p : Nat} {v : α} : (∀ e ∈ es, e.Sound ts.length) → k ≤ p →
      p < ts.length → Agrees ts k ⟨es, p, .ok v⟩ (.ok (v, ts.drop p))
  | error {es : List Event} {p : Nat} {t : Token} {c : SyntaxCause} :
      (∀ e ∈ es, e.Sound ts.length) → t ∈ ts →
      Agrees ts k ⟨es, p, .error (.fault ⟨t.line, c⟩)⟩ (.error ⟨t.line, c⟩)

section
variable {α β : Type} {ts : List Token} {active : List Frame} {i k k' : Nat}
  {o : Except SyntaxFault (Parsed α)} {o' : Except SyntaxFault (Parsed β)}

lemma Agrees.sound {r : Run α} (h : Agrees ts k r o) : ∀ e ∈ r.events, e.Sound ts.length := by
  cases h with
  | ok hs _ _ => exact hs
  | error hs _ => exact hs

lemma Agrees.mono {r : Run α} (h : Agrees ts k r o) (hk : k' ≤ k) : Agrees ts k' r o := by
  cases h with
  | ok hs hp hl => exact .ok hs (Nat.le_trans hk hp) hl
  | error hs ht => exact .error hs ht

lemma Agrees.behind {r : Run α} (h : Agrees ts k r o) (es : List Event)
    (hes : ∀ e ∈ es, e.Sound ts.length) : Agrees ts k (r.behind es) o := by
  have hall {fs : List Event} (hfs : ∀ e ∈ fs, e.Sound ts.length) :
      ∀ e ∈ es ++ fs, e.Sound ts.length := by
    intro e he
    rcases List.mem_append.mp he with he | he
    · exact hes e he
    · exact hfs e he
  cases h with
  | ok hs hk hp => exact .ok (hall hs) hk hp
  | error hs ht => exact .error (hall hs) ht

/-- what is done first agrees, and so does what is done from there -/
lemma Agrees.bind {x : Step α} {f : α → Step β} {g : Parsed α → Except SyntaxFault (Parsed β)}
    (h : Agrees ts k (x.run ts active i) o)
    (hf : ∀ v p, k ≤ p → p < ts.length → o = .ok (v, ts.drop p) →
      Agrees ts k' ((f v).run ts active p) (g (v, ts.drop p))) :
    Agrees ts k' ((x >>= f).run ts active i) (o >>= g) := by
  rw [Step.bind_run]
  generalize x.run ts active i = r at h
  cases h with
  | ok hs hk hp => exact (hf _ _ hk hp rfl).behind _ hs
  | error hs ht => exact .error hs ht

lemma Agrees.ite {c : Prop} [Decidable c] {x y : Step α} {o₁ o₂ : Except SyntaxFault (Parsed α)}
    (h₁ : c → Agrees ts k (x.run ts active i) o₁) (h₂ : ¬ c → Agrees ts k (y.run ts active i) o₂) :
    Agrees ts k ((if c then x else y).run ts active i) (if c then o₁ else o₂) := by
  split
  · next h => exact h₁ h
  · next h => exact h₂ h

lemma agrees_pure {v : α} (hk : k ≤ i) (hi : i < ts.length) :
    Agrees ts k ((pure v : Step α).run ts active i) (.ok (v, ts.drop i)) :=
  .ok (by simp) hk hi

lemma agrees_fault {t : Token} (ht : t ∈ ts) (c : SyntaxCause) :
    Agrees ts k ((fault t c : Step α).run ts active i) (.error ⟨t.line, c⟩) :=
  .error (by simp) ht

/-! ## one step and what follows it -/

/-- the token at a place is the first one of those left -/
lemma drop_eq_cons {t : Token} (h : ts[i]? = some t) : ts.drop i = t :: ts.drop (i + 1) := by
  obtain ⟨hi, rfl⟩ := List.getElem?_eq_some_iff.mp h
  exact List.drop_eq_getElem_cons hi

lemma startsWith_drop {t : Token} (h : ts[i]? = some t) (m : Mark) :
    startsWith m (ts.drop i) = t.is m := by
  rw [drop_eq_cons h]
  rfl

lemma lt_length {t : Token} (h : ts[i]? = some t) : i < ts.length :=
  (List.getElem?_eq_some_iff.mp h).1

lemma agrees_look {t : Token} (ht : ts[i]? = some t) {f : Token → Step α}
    (h : Agrees ts k ((f t).run ts active i) o) : Agrees ts k ((look >>= f).run ts active i) o := by
  have hrun : (look >>= f).run ts active i = ((f t).run ts active i).behind [.look i] := by
    rw [Step.bind_run]
    unfold look
    simp only [ht]
    rfl
  rw [hrun]
  apply h.behind
  simpa [Event.Sound] using lt_length ht

lemma agrees_take {t : Token} (ht : ts[i]? = some t) {f : Token → Step α}
    (h : Agrees ts k ((f t).run ts active (i + 1)) o) :
    Agrees ts k ((take >>= f).run ts active i) o := by
  have hrun : (take >>= f).run ts active i =
      ((f t).run ts active (i + 1)).behind [.look i, .take i] := by
    rw [Step.bind_run]
    unfold take
    simp only [ht]
    rfl
  rw [hrun]
  apply h.behind
  simpa [Event.Sound] using lt_length ht

lemma agrees_pass {t : Token} (ht : ts[i]? = some t) {f : Unit → Step α}
    (h : Agrees ts k ((f ()).run ts active (i + 1)) o) :
    Agrees ts k ((pass >>= f).run ts active i) o := by
  unfold pass
  rw [Step.bind_assoc]
  exact agrees_take ht h

lemma agrees_isAt {t : Token} (ht : ts[i]? = some t) (m : Mark) {f : Bool → Step α}
    (h : Agrees ts k ((f (t.is m)).run ts active i) o) :
    Agrees ts k ((isAt m >>= f).run ts active i) o := by
  unfold isAt
  rw [Step.bind_assoc]
  exact agrees_look ht h

lemma agrees_isAtKind {t : Token} (ht : ts[i]? = some t) (l : Kind) {f : Bool → Step α}
    (h : Agrees ts k ((f (t.isKind l)).run ts active i) o) :
    Agrees ts k ((isAtKind l >>= f).run ts active i) o := by
  unfold isAtKind
  rw [Step.bind_assoc]
  exact agrees_look ht h

lemma agrees_fail {t : Token} (ht : ts[i]? = some t) (c : SyntaxCause) :
    Agrees ts k ((fail c : Step α).run ts active i) (.error ⟨t.line, c⟩) :=
  agrees_look ht (agrees_fault (List.mem_of_getElem? ht) c)

lemma fault_bind (t : Token) (c : SyntaxCause) (f : α → Step β) :
    (fault t c >>= f) = fault t c := Step.ext fun _ _ _ => rfl

lemma fail_bind (c : SyntaxCause) (f : α → Step β) : (fail c >>= f) = fail c := by
  unfold fail
  simp only [Step.bind_assoc, fault_bind]

lemma upTo_bind (m : Mark) (x : Step α) (f : α → Step β) :
    upTo m (x >>= f) = x >>= fun v => upTo m (f v) := Step.bind_assoc ..

lemma upTo_more (m : Mark) (l : Loop) (start n : Nat) (next last : Step α) :
    upTo m (more l start n next last) = more l start n (upTo m next) (upTo m last) := by
  unfold more
  rw [upTo_bind]
  congr 1
  funext b
  cases b <;> simp [upTo_bind]

lemma upTo_map (m : Mark) (x : Step α) (f : α → β) :
    upTo m (x >>= fun v => pure (f v)) = upTo m x >>= fun v => pure (f v) := by
  unfold upTo
  simp only [Step.bind_assoc, Step.done_bind]

lemma agrees_here {f : Nat → Step α} (h : Agrees ts k ((f i).run ts active i) o) :
    Agrees ts k ((here >>= f).run ts active i) o := h.behind [] (by simp)

lemma agrees_turned {l : Loop} {start : Nat} (hs : start < i) {f : Unit → Step α}
    (h : Agrees ts k ((f ()).run ts active i) o) :
    Agrees ts k ((turned l start >>= f).run ts active i) o :=
  h.behind [.turn l start i] (by simpa [Event.Sound] using hs)

lemma agrees_call {r : Reader} (ha : Admits active ⟨r, i⟩) {x : Step α}
    (h : Agrees ts k (x.run ts (⟨r, i⟩ :: active) i) o) :
    Agrees ts k ((call r x).run ts active i) o :=
  h.behind [.call ⟨r, i⟩ active] (by simpa [Event.Sound] using ha)

end

/-! ## tokens with an end -/

/-- the last token is the end of the file -/
def Closed (ts : List Token) : Prop := ∃ t, ts.getLast? = some t ∧ t.kind = .endOfFile

section
variable {α : Type} {ts : List Token} (hc : Closed ts) {active : List Frame} {i k : Nat}
  {o : Except SyntaxFault (Parsed α)}
include hc

/-- behind any other token there is one more -/
lemma Closed.next {t : Token} (ht : ts[i]? = some t) (hk : t.kind ≠ .endOfFile) :
    i + 1 < ts.length := by
  obtain ⟨e, he, hek⟩ := hc
  have hi := lt_length ht
  by_contra hn
  have hlast : i = ts.length - 1 := by omega
  rw [List.getLast?_eq_getElem?, ← hlast, ht] at he
  obtain rfl := Option.some.inj he
  exact hk hek

omit hc in
lemma exists_token (hi : i < ts.length) : ∃ t, ts[i]? = some t := ⟨_, List.getElem?_eq_getElem hi⟩

/-- line breaks are passed to the first token that is none -/
lemma newlines_agrees {n : Nat} (hi : i < ts.length) (hn : ts.length - i ≤ n) :
    Agrees ts i ((newlines n).run ts active i) (.ok ((), skipNewlines (ts.drop i))) := by
  induction n generalizing i with
  | zero => omega
  | succ n ih =>
    obtain ⟨t, ht⟩ := exists_token hi
    rw [newlines]
    apply agrees_here
    apply agrees_isAtKind ht
    by_cases hk : t.isKind .newline = true
    · have kind : t.kind = .newline := (Grammar.isKind_iff _ _).mp hk
      have hnext := hc.next ht (by rw [kind]; decide)
      have hskip : skipNewlines (ts.drop i) = skipNewlines (ts.drop (i + 1)) := by
        have hn : Grammar.Newlines [t] := by simpa [Grammar.Newlines] using kind
        rw [drop_eq_cons ht]
        exact Grammar.skipNewlines_append hn _
      rw [if_pos hk, hskip]
      apply agrees_pass ht
      apply agrees_turned (Nat.lt_succ_self i)
      exact (ih hnext (by omega)).mono (Nat.le_succ i)
    · have kind : t.kind ≠ .newline := fun h => hk ((Grammar.isKind_iff _ _).mpr h)
      have hskip : skipNewlines (ts.drop i) = ts.drop i := by
        rw [drop_eq_cons ht]
        exact Grammar.skipNewlines_of_ne kind _
      rw [if_neg hk, hskip]
      exact agrees_pure (Nat.le_refl i) hi

/-- what follows stands at the first token that is no line break -/
lemma agrees_newlines {n : Nat} (hi : i < ts.length) (hn : ts.length - i ≤ n) {f : Unit → Step α}
    (h : ∀ p, i ≤ p → p < ts.length → ts.drop p = skipNewlines (ts.drop i) →
      Agrees ts k ((f ()).run ts active p) o) :
    Agrees ts k ((newlines n >>= f).run ts active i) o :=
  (newlines_agrees hc hi hn).bind (g := fun _ => o) fun _ p hp hl e =>
    h p hp hl (Prod.mk.inj (Except.ok.inj e)).2.symm

/-- a turn of a loop is over further on, behind a comma or at the token at hand -/
lemma agrees_more {l : Loop} {start n : Nat} (hs : start < i) (hi : i < ts.length)
    (hn : ts.length - i ≤ n) {next last : Step α} {o' : Except SyntaxFault (Parsed α)}
    (hnext : ∀ p, i < p → p < ts.length → ts.drop p = skipNewlines ((ts.drop i).drop 1) →
      Agrees ts k (next.run ts active p) o)
    (hlast : Agrees ts k (last.run ts active i) o') :
    Agrees ts k ((more l start n next last).run ts active i)
      (if startsWith comma (ts.drop i) then o else o') := by
  obtain ⟨t, ht⟩ := exists_token hi
  rw [startsWith_drop ht]
  apply agrees_isAt ht
  refine .ite (fun hcomma => ?_) fun _ => agrees_turned hs hlast
  have hbehind := hc.next ht (by rw [Grammar.kind_of_is hcomma]; decide)
  refine agrees_pass ht (agrees_newlines hc hbehind (by omega) fun p hp hl e => ?_)
  refine agrees_turned (by omega) (hnext p hp hl ?_)
  rw [e, List.drop_drop]

lemma agrees_want {m : Mark} (hm : m.kind ≠ .endOfFile) (hi : i < ts.length) {f : Unit → Step α}
    {g : List Token → Except SyntaxFault (Parsed α)}
    (h : i + 1 < ts.length → Agrees ts k ((f ()).run ts active (i + 1)) (g (ts.drop (i + 1)))) :
    Agrees ts k ((want m >>= f).run ts active i) (expect m (ts.drop i) >>= g) := by
  obtain ⟨t, ht⟩ := exists_token hi
  unfold want
  rw [Step.bind_assoc, drop_eq_cons ht, expect]
  apply agrees_isAt ht
  by_cases hk : t.is m = true
  · rw [if_pos hk, if_pos hk]
    apply agrees_pass ht
    exact h (hc.next ht (by rw [Grammar.kind_of_is hk]; exact hm))
  · rw [if_neg hk, if_neg hk, Step.bind_assoc]
    apply agrees_look ht
    rw [fail_bind]
    exact agrees_fail ht _

/-- a mark behind what is done already -/
lemma agrees_upTo {m : Mark} (hm : m.kind ≠ .endOfFile) (hi : i < ts.length) (v : α) :
    Agrees ts (i + 1) ((upTo m (pure v)).run ts active i)
      (expect m (ts.drop i) >>= fun r => .ok (v, r)) := by
  unfold upTo
  rw [Step.done_bind]
  exact agrees_want hc hm hi fun hl => agrees_pure (Nat.le_refl _) hl

/-- the mark is the token at hand -/
lemma agrees_closed {m : Mark} (hm : m.kind ≠ .endOfFile) {t : Token} (ht : ts[i]? = some t)
    (hmark : t.is m = true) (v : α) :
    Agrees ts (i + 1) ((upTo m (pure v)).run ts active i) (.ok (v, ts.drop (i + 1))) := by
  have h : Agrees ts (i + 1) ((upTo m (pure v)).run ts active i)
      (expect m (ts.drop i) >>= fun r => .ok (v, r)) := agrees_upTo hc hm (lt_length ht) v
  rw [drop_eq_cons ht, Grammar.expect_of_is hmark] at h
  exact h

end

end Gemfile.Cursor
