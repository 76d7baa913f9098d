import Gemfile.Proofs.Grammar.Statement

/-!
# Surface forms

What can be written in more than one way, on the tokens of a file.  New tokens may stand on any line.

* `Respelled t us`   the symbol, the label or the words `t` written as `us`
* `Balanced us`      each `do` has its `end`
* `Exchange l r`     `l` written as `r`: a token, or a block with braces in place of `do` and `end`
* `Step x y`         one form exchanged anywhere in a row of tokens
* `Recast k b x y`   any number of forms exchanged, said token by token for readers to follow
* `Step.recast`      one form exchanged is a special case
-/

namespace Gemfile.Surface
open Token Grammar Statement

/-! ## forms -/

/-- a literal in quotes -/
inductive IsText : List Token → Value → Prop
  | mk {t : Token} {s : String} :
      t.kind = .string → t.reading = .value (.str s) → IsText [t] (.str s)

/-- a symbol as a text, a label `k:` as `:k =>`, a list of words as a list of texts -/
inductive Respelled : Token → List Token → Prop
  | symbol {t u : Token} {s : String} :
      t.kind = .symbol → t.reading = .value (.str s) → u.kind = .string →
      u.reading = .value (.str s) → Respelled t [u]
  | label {t u a : Token} {k : List Char} :
      t.kind = .label → t.text = k ++ [':'] → k ≠ [] → ¬ Quoted k → u.kind = .symbol →
      u.text = ':' :: k → a.is arrowSign = true → Respelled t [u, a]
  | words {t : Token} {us : List Token} {ws : List Value} :
      t.kind = .words → t.reading = .value (.list ws) →
      Bracketed IsText openList closeList us ws → Respelled t us

def delimits (t : Token) : Bool := t.is (word "do") || t.is (word "end")

inductive Balanced : List Token → Prop
  | nil : Balanced []
  | token {t : Token} {us : List Token} : delimits t = false → Balanced us → Balanced (t :: us)
  | block {o e : Token} {us vs : List Token} :
      o.is (word "do") = true → Balanced us → e.is (word "end") = true → Balanced vs →
      Balanced (o :: us ++ e :: vs)

/-- a block behind this token may stand in braces: the arguments of its statement are in round brackets
or absent -/
def opensBlock (t : Token) : Bool := t.is closeCall || startsStatement t

/-- one form for another; the `end` of a block is the one that balances its `do` -/
inductive Exchange : List Token → List Token → Prop
  | respelled {t : Token} {us : List Token} : Respelled t us → Exchange [t] us
  | block {p o e o' e' : Token} {us : List Token} :
      opensBlock p = true → o.is (word "do") = true → Balanced us → e.is (word "end") = true →
      o'.is openBrace = true → e'.is closeBrace = true →
      Exchange (p :: o :: us ++ [e]) (p :: o' :: us ++ [e'])

inductive Step : List Token → List Token → Prop
  | mk (a b : List Token) {l r : List Token} : Exchange l r → Step (a ++ l ++ b) (a ++ r ++ b)

/-! ## forms exchanged side by side -/

/-- `t` is kept, or becomes the mark `m` if `braces` -/
def Delimiter (braces : Bool) (m : Mark) (t u : Token) : Prop :=
  (braces = false → u = t) ∧ (braces = true → u.is m = true)

/-- `y` is `x` with forms exchanged.  For each open block, `k` tells whether its `end` is to become a
brace; `b` tells whether a `do` may become one. -/
inductive Recast : List Bool → Bool → List Token → List Token → Prop
  | nil {k : List Bool} {b : Bool} : Recast k b [] []
  | same {k : List Bool} {b : Bool} {t : Token} {x y : List Token} :
      delimits t = false → Recast k (opensBlock t) x y → Recast k b (t :: x) (t :: y)
  | respelled {k : List Bool} {b : Bool} {t : Token} {us x y : List Token} :
      Respelled t us → Recast k false x y → Recast k b (t :: x) (us ++ y)
  | opening {k : List Bool} {b braces : Bool} {t u : Token} {x y : List Token} :
      t.is (word "do") = true → Delimiter braces openBrace t u → (braces = true → b = true) →
      Recast (braces :: k) false x y → Recast k b (t :: x) (u :: y)
  | closing {k : List Bool} {b : Bool} {t u : Token} {x y : List Token} :
      t.is (word "end") = true → Delimiter (k.headD false) closeBrace t u →
      Recast k.tail false x y → Recast k b (t :: x) (u :: y)

lemma Recast.mono {k : List Bool} {b c : Bool} {x y : List Token} (h : Recast k b x y)
    (hbc : b = true → c = true) : Recast k c x y := by
  cases h with
  | nil => exact .nil
  | same ht h => exact .same ht h
  | respelled hr h => exact .respelled hr h
  | opening ht hd hb h => exact .opening ht hd (fun hc => hbc (hb hc)) h
  | closing ht hd h => exact .closing ht hd h

lemma Recast.weaken {k : List Bool} {b : Bool} {x y : List Token} (h : Recast k false x y) :
    Recast k b x y :=
  h.mono fun e => absurd e Bool.false_ne_true

/-! ## one form exchanged -/

section
variable {k : List Bool} {b : Bool} {x y : List Token} {t : Token}

lemma not_is_of_delimits {s : String} (h : delimits t = false) (hs : s = "do" ∨ s = "end") :
    t.is (word s) = false := by
  obtain ⟨hd, he⟩ := Bool.or_eq_false_iff.mp h
  rcases hs with rfl | rfl
  · exact hd
  · exact he

lemma delimits_of_do (h : t.is (word "do") = true) : delimits t = true :=
  Bool.or_eq_true_iff.mpr (.inl h)

lemma delimits_of_end (h : t.is (word "end") = true) : delimits t = true :=
  Bool.or_eq_true_iff.mpr (.inr h)

lemma delimits_of_kind (h : t.kind ≠ .name) : delimits t = false := by
  unfold delimits
  rw [not_is_of_kind (m := word "do") h, not_is_of_kind (m := word "end") h]
  rfl

lemma delimits_of_isName (h : IsName t) : delimits t = false := by
  unfold delimits
  rw [h.not_word (by decide), h.not_word (by decide)]
  rfl

lemma delimits_of_opensBlock (h : opensBlock t = true) : delimits t = false := by
  rcases Bool.or_eq_true_iff.mp h with h | h
  · refine delimits_of_kind ?_
    rw [kind_of_is h]
    decide
  · exact delimits_of_isName ((startsStatement_iff t).mp h)

lemma Delimiter.kept (m : Mark) (t : Token) : Delimiter false m t t :=
  ⟨fun _ => rfl, fun h => absurd h Bool.false_ne_true⟩

lemma Delimiter.brace {m : Mark} {u : Token} (h : u.is m = true) (t : Token) : Delimiter true m t u :=
  ⟨fun h => absurd h.symm Bool.false_ne_true, fun _ => h⟩

/-- nothing is exchanged outside of blocks that have become braces -/
lemma Recast.keep (h : ∀ k, (∀ c ∈ k, c = false) → ∀ b, Recast k b x y) (a : List Token)
    (hk : ∀ c ∈ k, c = false) : Recast k b (a ++ x) (a ++ y) := by
  induction a generalizing k b with
  | nil => exact h k hk b
  | cons t a ih =>
    by_cases ho : t.is (word "do") = true
    · have hk' : ∀ c ∈ false :: k, c = false := List.forall_mem_cons.mpr ⟨rfl, hk⟩
      exact .opening ho (.kept _ t) (fun e => absurd e Bool.false_ne_true) (ih hk')
    · by_cases he : t.is (word "end") = true
      · have top : k.headD false = false := by
          cases k with
          | nil => rfl
          | cons c k => exact hk c List.mem_cons_self
        refine .closing he ?_ (ih fun c hc => hk c (List.mem_of_mem_tail hc))
        rw [top]
        exact .kept _ t
      · refine .same ?_ (ih hk)
        unfold delimits
        rw [Bool.eq_false_iff.mpr ho, Bool.eq_false_iff.mpr he]
        rfl

/-- nothing is exchanged in between a `do` and its `end` -/
lemma Balanced.keep {us : List Token} (hu : Balanced us) (h : ∀ b, Recast k b x y) :
    Recast k b (us ++ x) (us ++ y) := by
  induction hu generalizing k b x y with
  | nil => exact h b
  | token ht _ ih => exact .same ht (ih h)
  | @block o e us vs ho _ he _ ihu ihv =>
    rw [List.append_assoc, List.append_assoc]
    refine .opening ho (.kept _ o) (fun e => absurd e Bool.false_ne_true) (ihu fun b => ?_)
    exact .closing he (.kept _ e) (ihv h)

theorem Step.recast (h : Step x y) : Recast [] b x y := by
  obtain ⟨a, z, hf⟩ := h
  have same (k : List Bool) (hk : ∀ c ∈ k, c = false) (b : Bool) : Recast k b z z := by
    have := Recast.keep (b := b) (fun _ _ _ => .nil) z hk
    rwa [List.append_nil] at this
  rw [List.append_assoc, List.append_assoc]
  refine Recast.keep (fun k hk b => ?_) a fun c hc => absurd hc List.not_mem_nil
  cases hf with
  | respelled hr => exact .respelled hr (same k hk false)
  | @block p o e o' e' us hp ho hu he ho' he' =>
    have inner (b : Bool) : Recast (true :: k) b (e :: z) (e' :: z) :=
      .closing he (.brace he' e) (same k hk false)
    simp only [List.cons_append, List.append_assoc, List.nil_append]
    exact .same (delimits_of_opensBlock hp) (.opening ho (.brace ho' o) (fun _ => hp) (hu.keep inner))

end

end Gemfile.Surface
