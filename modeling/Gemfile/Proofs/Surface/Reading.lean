import Gemfile.Proofs.Joining.Reading
import Gemfile.Proofs.Surface.Heads

/-!
# Reading the same from other forms

What is read from some tokens is read from all that they can be recast as, with any number of readers
that is enough.

* `Leads R p q`         if `p` is a value, then `q` is one too, and they are in the relation `R`
* `Left k b n p q`      the same was read, and what is left is recast, fewer than `n` tokens
* `Leads.bind`          computations lead to others if their parts do
* `readersLead`         values are read so,
* `bare_leads`, `inBrackets_leads`   and the arguments of a statement
-/

namespace Gemfile.Surface
open Token Grammar Statement

/-! ## computations that lead to others -/

section
variable {α β γ δ : Type}

def Leads (R : α → β → Prop) (p : Except SyntaxFault α) (q : Except SyntaxFault β) : Prop :=
  ∀ a, p = .ok a → ∃ b, q = .ok b ∧ R a b

lemma Leads.ok {R : α → β → Prop} {a : α} {b : β} (h : R a b) : Leads R (.ok a) (.ok b) := by
  rintro _ ⟨⟩
  exact ⟨b, rfl, h⟩

lemma Leads.error {R : α → β → Prop} (f : SyntaxFault) (q : Except SyntaxFault β) :
    Leads R (.error f) q := by
  rintro a ⟨⟩

lemma Leads.bind {R : α → β → Prop} {S : γ → δ → Prop} {p : Except SyntaxFault α}
    {q : Except SyntaxFault β} {f : α → Except SyntaxFault γ} {g : β → Except SyntaxFault δ}
    (h : Leads R p q) (hf : ∀ a b, R a b → Leads S (f a) (g b)) : Leads S (p >>= f) (q >>= g) := by
  intro c hc
  obtain ⟨a, ha, hc⟩ := bind_eq_ok.mp hc
  obtain ⟨b, rfl, hab⟩ := h a ha
  exact hf a b hab c hc

lemma Leads.mono {R S : α → β → Prop} {p : Except SyntaxFault α} {q : Except SyntaxFault β}
    (h : Leads R p q) (hS : ∀ a b, R a b → S a b) : Leads S p q := by
  intro a ha
  obtain ⟨b, hb, hab⟩ := h a ha
  exact ⟨b, hb, hS a b hab⟩

inductive Left (k : List Bool) (b : Bool) (n : Nat) : Parsed α → Parsed α → Prop
  | mk {a : α} {r s : List Token} : Recast k b r s → s.length < n → Left k b n (a, r) (a, s)

lemma Left.mono {k : List Bool} {b : Bool} {n n' : Nat} (h : n ≤ n') {p q : Parsed α}
    (hl : Left k b n p q) : Left k b n' p q := by
  obtain ⟨hr, hl⟩ := hl
  exact .mk hr (Nat.lt_of_lt_of_le hl h)

end

section
variable {k : List Bool} {b : Bool} {x y : List Token}

/-- what stands behind a comma, and the newlines there -/
lemma Recast.comma (h : Recast k b x y) (hc : startsWith comma x = true) :
    Recast k false (skipNewlines (x.drop 1)) (skipNewlines (y.drop 1)) ∧
      (skipNewlines (y.drop 1)).length < y.length := by
  obtain ⟨rest, hl⟩ := h.drop hc (by decide)
  have hskip := length_skipNewlines_le (y.drop 1)
  exact ⟨rest.skip, by omega⟩

lemma expect_leads {m : Mark} (hm : m.kind ∉ exchangeable) (h : Recast k b x y) :
    Leads (fun r s => Recast k (decide (m = closeCall)) r s ∧ s.length < y.length)
      (expect m x) (expect m y) := by
  intro r hr
  obtain ⟨t, rfl, ht⟩ := expect_sound hr
  obtain ⟨z, rfl, hz⟩ := h.cons_of_is ht hm
  exact ⟨z, expect_of_is ht z, hz, Nat.lt_succ_self _⟩

lemma keyOf_leads (t u : Token) (v : Value) : Leads Eq (keyOf t v) (keyOf u v) := by
  intro a ha
  obtain rfl := keyOf_sound ha
  exact ⟨a, rfl, rfl⟩

/-! ## values -/

/-- what is respelled has the same value -/
lemma Respelled.reads {t : Token} {us : List Token} (h : Respelled t us) {v : Value}
    (hv : t.reading = .value v) : Reads us v := by
  cases h with
  | symbol _ ht _ hu =>
    cases ht.symm.trans hv
    exact reads_literal _ _ ((reading_iff _ _).mp hu)
  | label hk =>
    unfold reading at hv
    rw [hk] at hv
    cases hv
  | words _ ht hb =>
    cases ht.symm.trans hv
    refine reads_list us _ (hb.mono fun ts w hw => ?_)
    obtain ⟨_, hr⟩ := hw
    exact reads_literal _ _ ((reading_iff _ _).mp hr)

/-- a `do` or an `end` is no value -/
lemma valueFrom_of_delimits {t : Token} (ht : delimits t = true) (n : Nat) (x : List Token) :
    ∃ f, valueFrom n (t :: x) = .error f := by
  have reading : t.reading = .other := by
    unfold reading
    rcases Bool.or_eq_true_iff.mp ht with ht | ht
    all_goals
      obtain ⟨kind, text⟩ := (is_iff _ _).mp ht
      rw [kind, text]
      rfl
  have mark {m : Mark} (hm : m.kind = .punct) : t.is m = false := by
    refine not_is_of_kind fun hk => ?_
    rcases Bool.or_eq_true_iff.mp ht with ht | ht
    all_goals
      rw [hm, kind_of_is ht] at hk
      cases hk
  cases n with
  | zero => exact ⟨_, by rw [valueFrom]⟩
  | succ n =>
    refine ⟨⟨t.line, .unsupportedExpression t.found⟩, ?_⟩
    rw [valueFrom, reading, mark rfl, mark rfl]
    rfl

lemma entryKey_of_delimits {t : Token} (ht : delimits t = true) (n : Nat) (x : List Token) :
    ∃ f, entryKey (valueFrom n) t x = .error f := by
  obtain ⟨f, hf⟩ := valueFrom_of_delimits ht n x
  have label : t.isKind .label = false :=
    isKind_eq_false ((Bounds.of_delimits ht).kind_ne (by decide))
  refine ⟨f, ?_⟩
  unfold entryKey
  rw [label, hf]
  rfl

end

/-- any number of readers that is enough reads what `n` readers read -/
structure ReadersLead (n : Nat) : Prop where
  value : ∀ m k b x y, Recast k b x y → 2 * y.length ≤ m →
    Leads (Left k false y.length) (valueFrom n x) (valueFrom m y)
  items : ∀ m k b x y, Recast k b x y → 2 * y.length + 1 ≤ m →
    Leads (Left k false y.length) (itemsFrom n x) (itemsFrom m y)
  entries : ∀ m k b es x y, Recast k b x y → 2 * y.length + 1 ≤ m →
    Leads (Left k false y.length) (entriesFrom n es x) (entriesFrom m es y)

section
variable {n : Nat} (hn : ReadersLead n)
include hn

lemma valueFrom_leads (m : Nat) (k : List Bool) (b : Bool) (x y : List Token) (h : Recast k b x y)
    (hm : 2 * y.length ≤ m) : Leads (Left k false y.length) (valueFrom (n + 1) x) (valueFrom m y) := by
  cases h with
  | nil =>
    rw [valueFrom]
    exact .error _ _
  | @same _ _ t x y _ h =>
    rw [List.length_cons] at hm ⊢
    obtain ⟨m, rfl⟩ : ∃ m', m = m' + 1 := ⟨m - 1, by omega⟩
    have hskip := length_skipNewlines_le y
    rw [valueFrom, valueFrom]
    cases hr : t.reading with
    | value v =>
      rw [opensBlock_of_reading hr] at h
      exact .ok (.mk h (Nat.lt_succ_self _))
    | interpolated => exact .error _ _
    | other =>
      dsimp only
      split
      · refine (hn.items m _ _ _ _ h.skip (by omega)).bind ?_
        rintro ⟨vs, r⟩ ⟨_, z⟩ ⟨hr, hl⟩
        have hlen : z.length < y.length + 1 := by omega
        exact .ok (.mk hr hlen)
      · split
        · refine (hn.entries m _ _ _ _ _ h.skip (by omega)).bind ?_
          rintro ⟨es, r⟩ ⟨_, z⟩ ⟨hr, hl⟩
          have hlen : z.length < y.length + 1 := by omega
          exact .ok (.mk hr hlen)
        · exact .error _ _
  | @respelled _ _ t us x y hr h =>
    obtain ⟨u, vs, rfl, -⟩ := id hr.leading
    rw [List.length_append] at hm
    cases hv : t.reading with
    | value v =>
      rw [(hr.reads hv).read m y (by omega), valueFrom, hv]
      refine .ok (.mk h ?_)
      rw [List.length_append, List.length_cons]
      omega
    | interpolated =>
      rw [valueFrom, hv]
      exact .error _ _
    | other =>
      have mark {m : Mark} (hm : m.kind = .punct) : t.is m = false :=
        not_is_of_kind (by rw [hm]; exact hr.kind_ne (by decide))
      rw [valueFrom, hv, mark rfl, mark rfl]
      exact .error _ _
  | opening ht _ _ _ =>
    obtain ⟨f, hf⟩ := valueFrom_of_delimits (delimits_of_do ht) (n + 1) _
    rw [hf]
    exact .error _ _
  | closing ht _ _ =>
    obtain ⟨f, hf⟩ := valueFrom_of_delimits (delimits_of_end ht) (n + 1) _
    rw [hf]
    exact .error _ _

lemma itemsFrom_leads (m : Nat) (k : List Bool) (b : Bool) (x y : List Token) (h : Recast k b x y)
    (hm : 2 * y.length + 1 ≤ m) :
    Leads (Left k false y.length) (itemsFrom (n + 1) x) (itemsFrom m y) := by
  obtain ⟨m, rfl⟩ : ∃ m', m = m' + 1 := ⟨m - 1, by omega⟩
  rw [itemsFrom, itemsFrom, h.startsWith_eq (m := closeList) (by decide)]
  split
  · next hc =>
    obtain ⟨h, hl⟩ := h.drop hc (by decide)
    exact .ok (.mk h (by omega))
  · refine (hn.value m _ _ _ _ h (by omega)).bind ?_
    rintro ⟨v, r⟩ ⟨_, s⟩ ⟨h, hl⟩
    have hskip := length_skipNewlines_le s
    dsimp only
    rw [h.skip.startsWith_eq (m := comma) (by decide)]
    split
    · next hc =>
      obtain ⟨h, hl'⟩ := h.skip.comma hc
      refine (hn.items m _ _ _ _ h (by omega)).bind ?_
      rintro ⟨vs, r⟩ ⟨_, z⟩ ⟨h, hl⟩
      have hlen : z.length < y.length := by omega
      exact .ok (.mk h hlen)
    · refine (expect_leads (by decide) h.skip).bind ?_
      rintro r s' ⟨h, hl⟩
      exact .ok (.mk h (by omega))

lemma entryKey_leads (m : Nat) {k : List Bool} {b : Bool} {t u : Token} {x y : List Token}
    (h : Recast k b (t :: x) (u :: y)) (hm : 2 * (u :: y).length ≤ m) :
    Leads (Left k false (u :: y).length) (entryKey (valueFrom n) t x)
      (entryKey (valueFrom m) u y) := by
  unfold entryKey
  cases ht : t.isKind .label with
  | true =>
    rcases h.cons_label ((isKind_iff _ _).mp ht) with ⟨z, e, hz⟩ | ⟨v, a, z, e, hv, hr, ha, hz⟩
    · obtain ⟨rfl, rfl⟩ := List.cons.inj e
      rw [if_pos ht]
      exact .ok (.mk hz (Nat.lt_succ_self _))
    · obtain ⟨rfl, rfl⟩ := List.cons.inj e
      have read := (reads_literal _ _ ((reading_iff _ _).mp hr)).read m (a :: z)
        (by simp only [List.length_cons, List.length_nil] at hm ⊢; omega)
      rw [List.singleton_append] at read
      have label : u.isKind .label = false := isKind_eq_false (by rw [hv]; decide)
      rw [label, if_pos rfl, if_neg Bool.false_ne_true, read, ok_bind]
      dsimp only
      rw [keyOf, ok_bind, expect_of_is ha, ok_bind]
      refine .ok (.mk hz ?_)
      simp only [List.length_cons]
      omega
  | false =>
    obtain ⟨_, _, e, hu⟩ := h.head
    obtain ⟨rfl, rfl⟩ := List.cons.inj e
    rw [hu.not_label ht, if_neg Bool.false_ne_true, if_neg Bool.false_ne_true]
    refine (hn.value m _ _ _ _ h hm).bind ?_
    rintro ⟨v, r⟩ ⟨_, s⟩ ⟨h, hl⟩
    refine (keyOf_leads t u v).bind ?_
    rintro w _ rfl
    refine (expect_leads (by decide) h).bind ?_
    rintro r' s' ⟨h, hl'⟩
    have hlen : s'.length < (u :: y).length := by omega
    exact .ok (.mk h hlen)

lemma entriesFrom_leads (m : Nat) (k : List Bool) (b : Bool) (es : Options) (x y : List Token)
    (h : Recast k b x y) (hm : 2 * y.length + 1 ≤ m) :
    Leads (Left k false y.length) (entriesFrom (n + 1) es x) (entriesFrom m es y) := by
  obtain ⟨m, rfl⟩ : ∃ m', m = m' + 1 := ⟨m - 1, by omega⟩
  cases x with
  | nil =>
    rw [entriesFrom]
    exact .error _ _
  | cons t x =>
    obtain ⟨u, y, rfl, hu⟩ := h.head
    rw [entriesFrom, entriesFrom]
    split
    · next hc =>
      obtain ⟨z, e, h⟩ := h.cons_of_is hc (by decide)
      obtain ⟨rfl, rfl⟩ := List.cons.inj e
      rw [if_pos hc]
      exact .ok (.mk h (Nat.lt_succ_self _))
    · next hc =>
      cases hd : delimits t with
      | true =>
        obtain ⟨f, hf⟩ := entryKey_of_delimits hd n x
        rw [hf]
        exact .error _ _
      | false =>
        have hu' : ¬ u.is closeBrace = true := by
          cases hu with
          | same => exact hc
          | leading _ hu _ =>
            rw [hu.1.not_is rfl (by decide) (by decide)]
            exact Bool.false_ne_true
          | bounds ht _ => cases hd.symm.trans ht
        rw [if_neg hu']
        refine (entryKey_leads hn m h (by omega)).bind ?_
        rintro ⟨key, r⟩ ⟨_, s⟩ ⟨h, hl⟩
        have hskip := length_skipNewlines_le s
        refine (hn.value m _ _ _ _ h.skip (by omega)).bind ?_
        rintro ⟨v, r⟩ ⟨_, s'⟩ ⟨h, hl'⟩
        have hskip' := length_skipNewlines_le s'
        dsimp only
        rw [h.skip.startsWith_eq (m := comma) (by decide)]
        split
        · next hc =>
          obtain ⟨h, hl''⟩ := h.skip.comma hc
          refine (hn.entries m _ _ _ _ _ h (by omega)).mono ?_
          exact fun _ _ hl => hl.mono (by omega)
        · refine (expect_leads (by decide) h.skip).bind ?_
          rintro r' s'' ⟨h, hl''⟩
          exact .ok (.mk h (by omega))

end

theorem readersLead (n : Nat) : ReadersLead n := by
  induction n with
  | zero =>
    constructor
    · intro m k b x y _ _
      rw [valueFrom]
      exact .error _ _
    · intro m k b x y _ _
      rw [itemsFrom]
      exact .error _ _
    · intro m k b es x y _ _
      rw [entriesFrom]
      exact .error _ _
  | succ n ih => exact ⟨valueFrom_leads ih, itemsFrom_leads ih, entriesFrom_leads ih⟩

section
variable {k : List Bool} {b : Bool} {x y : List Token}

lemma value_leads (h : Recast k b x y) :
    Leads (Left k false y.length) (Value.ofTokens x) (Value.ofTokens y) := by
  refine (readersLead _).value _ _ _ _ _ h ?_
  unfold readers
  omega

/-! ## arguments -/

lemma argument_label {t u : Token} (c : Call) (h : Recast k b (t :: x) (u :: y))
    (ht : t.isKind .label = true) :
    Leads (Left k false (u :: y).length) (c.argument (t :: x)) (c.argument (u :: y)) := by
  rw [Call.argument, Call.argument, if_pos ht]
  rcases h.cons_label ((isKind_iff _ _).mp ht) with ⟨z, e, hz⟩ | ⟨v, a, z, e, hv, hr, ha, hz⟩
  · obtain ⟨rfl, rfl⟩ := List.cons.inj e
    have hskip := length_skipNewlines_le y
    rw [if_pos ht]
    refine (value_leads hz.skip).bind ?_
    rintro ⟨w, r⟩ ⟨_, s⟩ ⟨hs, hl⟩
    have hlen : s.length < (u :: y).length := by
      rw [List.length_cons]
      omega
    exact .ok (.mk hs hlen)
  · obtain ⟨rfl, rfl⟩ := List.cons.inj e
    have label : u.isKind .label = false := isKind_eq_false (by rw [hv]; decide)
    have arrow : a.isKind .arrow = true := (isKind_iff _ _).mpr (kind_of_is ha)
    have read : Value.ofTokens (u :: a :: z) = .ok (.str t.labelName, a :: z) :=
      value_complete (.literal ((reading_iff _ _).mp hr)) (a :: z)
    have hskip := length_skipNewlines_le z
    rw [label, if_neg Bool.false_ne_true, read, ok_bind]
    dsimp only
    rw [if_pos arrow]
    refine (value_leads hz.skip).bind ?_
    rintro ⟨w, r⟩ ⟨_, s⟩ ⟨hs, hl⟩
    rw [keyOf, ok_bind]
    have hlen : s.length < (u :: a :: z).length := by
      simp only [List.length_cons]
      omega
    exact .ok (.mk hs hlen)

/-- a value, which may be the key of an option -/
lemma argument_value {t u : Token} (c : Call) (h : Recast k b (t :: x) (u :: y))
    (ht : t.isKind .label = false) (hu : u.isKind .label = false) :
    Leads (Left k false (u :: y).length) (c.argument (t :: x)) (c.argument (u :: y)) := by
  rw [Call.argument, Call.argument, ht, hu, if_neg Bool.false_ne_true, if_neg Bool.false_ne_true]
  refine (value_leads h).bind ?_
  rintro ⟨v, r⟩ ⟨_, s⟩ ⟨hs, hl⟩
  cases r with
  | nil => exact .error _ _
  | cons w r =>
    obtain ⟨w', s, rfl, hw⟩ := hs.head
    dsimp only
    rw [hw.isKind_eq (l := .arrow) (by decide)]
    split
    · next ha =>
      obtain ⟨_, e, hs'⟩ := hs.cons (by rw [(isKind_iff _ _).mp ha]; decide)
      obtain ⟨rfl, rfl⟩ := List.cons.inj e
      have hskip := length_skipNewlines_le s
      refine (value_leads hs'.skip).bind ?_
      rintro ⟨v', r⟩ ⟨_, s'⟩ ⟨hs'', hl'⟩
      refine (keyOf_leads t u v).bind ?_
      rintro key _ rfl
      have hlen : s'.length < (u :: y).length := by
        rw [List.length_cons] at hl
        omega
      exact .ok (.mk hs'' hlen)
    · split
      · exact .ok (.mk hs hl)
      · exact .error _ _

lemma argument_leads (c : Call) (h : Recast k b x y) :
    Leads (Left k false y.length) (c.argument x) (c.argument y) := by
  cases x with
  | nil => exact .error _ _
  | cons t x =>
    obtain ⟨u, y, rfl, hu⟩ := h.head
    cases ht : t.isKind .label with
    | true => exact argument_label c h ht
    | false => exact argument_value c h ht (hu.not_label ht)

lemma argumentsFrom_leads (bracketed : Bool) (n m : Nat) (c : Call) (h : Recast k b x y)
    (hm : y.length < m) :
    Leads (Left k false y.length) (Call.argumentsFrom bracketed n c x)
      (Call.argumentsFrom bracketed m c y) := by
  induction n generalizing m b c x y with
  | zero =>
    rw [Call.argumentsFrom]
    exact .error _ _
  | succ n ih =>
    obtain ⟨m, rfl⟩ : ∃ m', m = m' + 1 := ⟨m - 1, by omega⟩
    rw [Call.argumentsFrom, Call.argumentsFrom]
    refine (argument_leads c h).bind ?_
    rintro ⟨c', r⟩ ⟨_, s⟩ ⟨hs, hl⟩
    obtain ⟨pass, hlen⟩ : Recast k false (passNewlines bracketed r) (passNewlines bracketed s) ∧
        (passNewlines bracketed s).length < y.length := by
      cases bracketed with
      | false => exact ⟨hs, hl⟩
      | true => exact ⟨hs.skip, Nat.lt_of_le_of_lt (length_skipNewlines_le s) hl⟩
    show Leads _ (if startsWith comma (passNewlines bracketed r) then _ else _)
      (if startsWith comma (passNewlines bracketed s) then _ else _)
    rw [pass.startsWith_eq (m := comma) (by decide)]
    split
    · next hc =>
      obtain ⟨rest, hl'⟩ := pass.comma hc
      exact (ih m c' rest (by omega)).mono fun _ _ hleft => hleft.mono (by omega)
    · exact .ok (.mk pass hlen)

lemma bare_leads (h : Recast k b x y) :
    Leads (Left k false y.length) (Call.bare x) (Call.bare y) := by
  refine (argumentsFrom_leads false _ _ Call.empty h (Nat.lt_succ_self _)).bind ?_
  rintro ⟨c, r⟩ ⟨_, s⟩ ⟨hs, hl⟩
  exact .ok (.mk hs hl)

lemma inBrackets_leads (h : Recast k b x y) :
    Leads (Left k true y.length) (Call.inBrackets x) (Call.inBrackets y) := by
  have hskip := length_skipNewlines_le y
  unfold Call.inBrackets
  dsimp only
  rw [h.skip.startsWith_eq (m := closeCall) (by decide)]
  split
  · next hc =>
    obtain ⟨hs, hl⟩ := h.skip.drop hc (by decide)
    exact .ok (.mk hs (by omega))
  · refine (argumentsFrom_leads true _ _ Call.empty h.skip (Nat.lt_succ_self _)).bind ?_
    rintro ⟨c, r⟩ ⟨_, s⟩ ⟨hs, hl⟩
    refine (expect_leads (by decide) hs).bind ?_
    rintro r' s' ⟨hs', hl'⟩
    have hlen : s'.length < y.length := by omega
    exact .ok (.mk hs' hlen)

end

end Gemfile.Surface
