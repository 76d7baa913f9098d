import Gemfile.Proofs.Grammar.Marks

/-!
# Values are read exactly as the grammar derives them

* `reading_iff`          a token is read as the literal that it is
* `value_sound`          what is read is derived from the tokens taken
* `value_complete`       what is derived is read, whatever stands behind it

A value begins with a token that is no newline, comma or closing bracket (`Opens`), and no token
behind a value is looked at.  Two readers for each token are enough.
-/

namespace Gemfile.Grammar
open Token

/-! ## literals -/

lemma quotedReading_iff (cs : List Char) (v : Value) :
    quotedReading cs = .value v ↔ ∃ s, unquote? cs = some s ∧ v = .str (String.ofList s) := by
  unfold quotedReading
  cases unquote? cs with
  | none => simp
  | some s => simp [eq_comm]

lemma literal_of_keyword {t : Token} {v : Value} (hk : t.kind = .name)
    (h : keyword? t.text = some v) : Literal t v := by
  unfold keyword? at h
  split at h
  · next ht =>
    obtain rfl := Option.some.inj h
    exact .true ((is_iff _ _).mpr ⟨hk, ht⟩)
  · split at h
    · next ht =>
      obtain rfl := Option.some.inj h
      exact .false ((is_iff _ _).mpr ⟨hk, ht⟩)
    · split at h
      · next ht =>
        obtain rfl := Option.some.inj h
        exact .nil ((is_iff _ _).mpr ⟨hk, ht⟩)
      · simp at h

lemma quoted_cons (c : Char) (r : List Char) : Quoted (c :: r) ↔ c = '\x27' ∨ c = '"' := by
  simp [Quoted]

lemma literal_of_reading {t : Token} {v : Value} (h : t.reading = .value v) : Literal t v := by
  unfold reading at h
  split at h
  · next hk =>
    obtain ⟨s, hs, rfl⟩ := (quotedReading_iff _ _).mp h
    exact .string hk hs
  · next hk =>
    split at h
    · next hd =>
      obtain rfl := Reading.value.inj h
      have := Literal.symbol hk (by simp [Quoted, hd])
      rwa [hd] at this
    · next c r hd =>
      split at h
      · next hq =>
        obtain ⟨s, hs, rfl⟩ := (quotedReading_iff _ _).mp h
        exact .quotedSymbol hk (by rw [hd]; exact (quoted_cons c r).mpr hq) (by rw [hd]; exact hs)
      · next hq =>
        obtain rfl := Reading.value.inj h
        have := Literal.symbol hk (by rw [hd]; exact fun h' => hq ((quoted_cons c r).mp h'))
        rwa [hd] at this
  · next hk =>
    obtain rfl := Reading.value.inj h
    exact .number hk
  · next hk =>
    obtain rfl := Reading.value.inj h
    exact .words hk
  · next hk =>
    split at h
    · next w hw =>
      obtain rfl := Reading.value.inj h
      exact literal_of_keyword hk hw
    · simp at h
  · simp at h

lemma Literal.reading_eq {t : Token} {v : Value} (h : Literal t v) : t.reading = .value v := by
  unfold reading
  cases h with
  | string hk hs =>
    rw [hk]
    exact (quotedReading_iff _ _).mpr ⟨_, hs, rfl⟩
  | symbol hk hq =>
    rw [hk]
    cases hd : t.text.drop 1 with
    | nil => rfl
    | cons c r =>
      rw [hd, quoted_cons] at hq
      simp [hq]
  | quotedSymbol hk hq hs =>
    rw [hk]
    cases hd : t.text.drop 1 with
    | nil =>
      rw [hd] at hq
      simp [Quoted] at hq
    | cons c r =>
      rw [hd] at hq hs
      simp only [if_pos ((quoted_cons c r).mp hq)]
      exact (quotedReading_iff _ _).mpr ⟨_, hs, rfl⟩
  | number hk => rw [hk]
  | words hk => rw [hk]
  | true ht =>
    obtain ⟨hk, ht⟩ := (is_iff _ _).mp ht
    rw [hk, ht]
    rfl
  | false ht =>
    obtain ⟨hk, ht⟩ := (is_iff _ _).mp ht
    rw [hk, ht]
    rfl
  | nil ht =>
    obtain ⟨hk, ht⟩ := (is_iff _ _).mp ht
    rw [hk, ht]
    rfl

theorem reading_iff (t : Token) (v : Value) : t.reading = .value v ↔ Literal t v :=
  ⟨literal_of_reading, Literal.reading_eq⟩

lemma reading_of_punct {t : Token} (h : t.kind = .punct) : t.reading = .other := by
  simp [reading, h]

def literalKinds : List Kind := [.string, .symbol, .number, .words, .name]

lemma Literal.kind_mem {t : Token} {v : Value} (h : Literal t v) : t.kind ∈ literalKinds := by
  cases h with
  | string hk _ => simp [literalKinds, hk]
  | symbol hk _ => simp [literalKinds, hk]
  | quotedSymbol hk _ _ => simp [literalKinds, hk]
  | number hk => simp [literalKinds, hk]
  | words hk => simp [literalKinds, hk]
  | true ht => simp [literalKinds, kind_of_is ht, word]
  | false ht => simp [literalKinds, kind_of_is ht, word]
  | nil ht => simp [literalKinds, kind_of_is ht, word]

/-! ## the first token of a value -/

/-- a token that a value begins with -/
def Opens (t : Token) : Prop := (∃ v, Literal t v) ∨ t.is openList = true ∨ t.is openBrace = true

lemma Opens.kind_ne {t : Token} (h : Opens t) {k : Kind} (hk : k ∉ .punct :: literalKinds) :
    t.kind ≠ k := by
  rintro rfl
  apply hk
  rcases h with ⟨v, hv⟩ | ho | ho
  · exact List.mem_cons_of_mem _ hv.kind_mem
  · rw [kind_of_is ho]; exact List.mem_cons_self
  · rw [kind_of_is ho]; exact List.mem_cons_self

lemma Opens.not_is {t : Token} (h : Opens t) {m : Mark} (hk : m.kind = .punct)
    (h1 : openList ≠ m) (h2 : openBrace ≠ m) : t.is m = false := by
  rcases h with ⟨v, hv⟩ | ho | ho
  · apply not_is_of_kind
    intro e
    have := hv.kind_mem
    rw [e, hk] at this
    exact absurd this (by decide)
  · exact not_is_of_is ho h1
  · exact not_is_of_is ho h2

/-- a token that an argument or an entry begins with -/
def Begins (t : Token) : Prop := t.kind = .label ∨ Opens t

lemma Begins.kind_ne {t : Token} (h : Begins t) {k : Kind} (hk : k ∉ .label :: .punct :: literalKinds) :
    t.kind ≠ k := by
  rw [List.mem_cons, not_or] at hk
  rcases h with h | h
  · rw [h]
    exact fun e => hk.1 e.symm
  · exact h.kind_ne hk.2

lemma Begins.not_is {t : Token} (h : Begins t) {m : Mark} (hk : m.kind = .punct)
    (h1 : openList ≠ m) (h2 : openBrace ≠ m) : t.is m = false := by
  rcases h with h | h
  · exact not_is_of_kind (by rw [h, hk]; decide)
  · exact h.not_is hk h1 h2

/-! ## what is read is derived -/

lemma keyOf_sound {t : Token} {v : Value} {k : String} (h : keyOf t v = .ok k) : v = .str k := by
  unfold keyOf at h
  split at h
  · rw [Except.ok.inj h]
  · simp at h

/-- what `n` readers take is derived; the items and entries are taken with their closing bracket -/
structure ReadersSound (n : Nat) : Prop where
  value : ∀ ts v rest, valueFrom n ts = .ok (v, rest) → ∃ us, IsValue us v ∧ ts = us ++ rest
  items : ∀ ts vs rest, itemsFrom n ts = .ok (vs, rest) →
    ∃ us c, Listed IsValue us vs ∧ c.is closeList = true ∧ ts = us ++ c :: rest
  entries : ∀ es ts es' rest, entriesFrom n es ts = .ok (es', rest) →
    ∃ us c ps, Listed IsPair us ps ∧ c.is closeBrace = true ∧ ts = us ++ c :: rest ∧
      es' = Table.putAll es ps

lemma readersSound_zero : ReadersSound 0 := by
  constructor
  · intro ts v rest h
    simp [valueFrom] at h
  · intro ts vs rest h
    simp [itemsFrom] at h
  · intro es ts es' rest h
    simp [entriesFrom] at h

section
variable {n : Nat} (hn : ReadersSound n)
include hn

lemma valueFrom_step (ts : List Token) (v : Value) (rest : List Token)
    (h : valueFrom (n + 1) ts = .ok (v, rest)) : ∃ us, IsValue us v ∧ ts = us ++ rest := by
  cases ts with
  | nil => simp [valueFrom] at h
  | cons t ts =>
    rw [valueFrom] at h
    split at h
    · next w hw =>
      obtain ⟨rfl, rfl⟩ := Prod.mk.inj (Except.ok.inj h)
      exact ⟨[t], .literal ((reading_iff t w).mp hw), rfl⟩
    · simp at h
    · obtain ⟨nl, hts, hnl⟩ := skipNewlines_sound ts
      split at h
      · next ho =>
        obtain ⟨⟨vs, r⟩, hi, h⟩ := bind_eq_ok.mp h
        obtain ⟨rfl, rfl⟩ := Prod.mk.inj (Except.ok.inj h)
        obtain ⟨us, c, hus, hc, e⟩ := hn.items _ _ _ hi
        refine ⟨t :: (nl ++ us) ++ [c], .list (.mk ho hnl hus hc), ?_⟩
        rw [hts, e]
        simp
      · split at h
        · next ho =>
          obtain ⟨⟨es, r⟩, he, h⟩ := bind_eq_ok.mp h
          obtain ⟨rfl, rfl⟩ := Prod.mk.inj (Except.ok.inj h)
          obtain ⟨us, c, ps, hus, hc, e, rfl⟩ := hn.entries _ _ _ _ he
          refine ⟨t :: (nl ++ us) ++ [c], .hash (.mk ho hnl hus hc), ?_⟩
          rw [hts, e]
          simp
        · simp at h

lemma itemsFrom_step (ts : List Token) (vs : List Value) (rest : List Token)
    (h : itemsFrom (n + 1) ts = .ok (vs, rest)) :
    ∃ us c, Listed IsValue us vs ∧ c.is closeList = true ∧ ts = us ++ c :: rest := by
  rw [itemsFrom] at h
  split at h
  · next hc =>
    obtain ⟨rfl, rfl⟩ := Prod.mk.inj (Except.ok.inj h)
    cases ts with
    | nil => simp [startsWith] at hc
    | cons c ts => exact ⟨[], c, .empty, hc, rfl⟩
  · obtain ⟨⟨v, r⟩, hv, h⟩ := bind_eq_ok.mp h
    obtain ⟨us, hus, hts⟩ := hn.value _ _ _ hv
    dsimp only at h
    split at h
    · next hc =>
      obtain ⟨ss, hss, e⟩ := comma_sound (b := true) hc
      rw [passNewlines_true] at e
      obtain ⟨⟨ws, r'⟩, hi, h⟩ := bind_eq_ok.mp h
      obtain ⟨rfl, rfl⟩ := Prod.mk.inj (Except.ok.inj h)
      obtain ⟨us', c, hus', hc', e'⟩ := hn.items _ _ _ hi
      refine ⟨us ++ ss ++ us', c, .cons hus hss hus', hc', ?_⟩
      rw [hts, e, e']
      simp
    · obtain ⟨nl, hr, hnl⟩ := skipNewlines_sound r
      obtain ⟨r', he, h⟩ := bind_eq_ok.mp h
      obtain ⟨rfl, rfl⟩ := Prod.mk.inj (Except.ok.inj h)
      obtain ⟨c, e, hc'⟩ := expect_sound he
      refine ⟨us ++ nl, c, .last hus hnl, hc', ?_⟩
      rw [hts, hr, e]
      simp

/-- the key of an entry and the value behind it are a pair -/
lemma entry_sound {t : Token} {ts rest rest' : List Token} {k : String} {v : Value}
    (hk : entryKey (valueFrom n) t ts = .ok (k, rest))
    (hv : valueFrom n (skipNewlines rest) = .ok (v, rest')) :
    ∃ us, IsPair us (k, v) ∧ t :: ts = us ++ rest' := by
  obtain ⟨nl, hrest, hnl⟩ := skipNewlines_sound rest
  obtain ⟨us, hus, e⟩ := hn.value _ _ _ hv
  unfold entryKey at hk
  split at hk
  · next ht =>
    obtain ⟨rfl, rfl⟩ := Prod.mk.inj (Except.ok.inj hk)
    refine ⟨t :: (nl ++ us), .label ((isKind_iff _ _).mp ht) hnl hus, ?_⟩
    rw [hrest, e]
    simp
  · obtain ⟨⟨w, r⟩, hw, hk⟩ := bind_eq_ok.mp hk
    obtain ⟨ks, hks, e'⟩ := hn.value _ _ _ hw
    obtain ⟨k', hk', hk⟩ := bind_eq_ok.mp hk
    obtain ⟨r', hr', hk⟩ := bind_eq_ok.mp hk
    obtain ⟨rfl, rfl⟩ := Prod.mk.inj (Except.ok.inj hk)
    obtain ⟨u, rfl, hu⟩ := expect_sound hr'
    obtain rfl := keyOf_sound hk'
    refine ⟨ks ++ u :: (nl ++ us), .arrow hks hu hnl hus, ?_⟩
    rw [e', hrest, e]
    simp

lemma entriesFrom_step (es : Options) (ts : List Token) (es' : Options) (rest : List Token)
    (h : entriesFrom (n + 1) es ts = .ok (es', rest)) :
    ∃ us c ps, Listed IsPair us ps ∧ c.is closeBrace = true ∧ ts = us ++ c :: rest ∧
      es' = Table.putAll es ps := by
  cases ts with
  | nil => simp [entriesFrom] at h
  | cons t ts =>
    rw [entriesFrom] at h
    split at h
    · next hc =>
      obtain ⟨rfl, rfl⟩ := Prod.mk.inj (Except.ok.inj h)
      exact ⟨[], t, [], .empty, hc, rfl, rfl⟩
    · obtain ⟨⟨k, r⟩, hk, h⟩ := bind_eq_ok.mp h
      obtain ⟨⟨v, r'⟩, hv, h⟩ := bind_eq_ok.mp h
      obtain ⟨us, hus, hts⟩ := entry_sound hn hk hv
      dsimp only at h
      split at h
      · next hc =>
        obtain ⟨ss, hss, e⟩ := comma_sound (b := true) hc
        rw [passNewlines_true] at e
        obtain ⟨us', c, ps, hus', hc', e', rfl⟩ := hn.entries _ _ _ _ h
        refine ⟨us ++ ss ++ us', c, (k, v) :: ps, .cons hus hss hus', hc', ?_, rfl⟩
        rw [hts, e, e']
        simp
      · obtain ⟨nl, hr, hnl⟩ := skipNewlines_sound r'
        obtain ⟨r'', he, h⟩ := bind_eq_ok.mp h
        obtain ⟨rfl, rfl⟩ := Prod.mk.inj (Except.ok.inj h)
        obtain ⟨c, e, hc'⟩ := expect_sound he
        refine ⟨us ++ nl, c, [(k, v)], .last hus hnl, hc', ?_, rfl⟩
        rw [hts, hr, e]
        simp

end

theorem readersSound (n : Nat) : ReadersSound n := by
  induction n with
  | zero => exact readersSound_zero
  | succ n ih => exact ⟨valueFrom_step ih, itemsFrom_step ih, entriesFrom_step ih⟩

theorem value_sound {ts rest : List Token} {v : Value} (h : Value.ofTokens ts = .ok (v, rest)) :
    ∃ us, IsValue us v ∧ ts = us ++ rest :=
  (readersSound _).value ts v rest h

/-! ## what is derived is read -/

/-- enough readers read `v` from `ts`, whatever stands behind it -/
structure Reads (ts : List Token) (v : Value) : Prop where
  opens : ∃ t us, ts = t :: us ∧ Opens t
  read : ∀ n rest, 2 * ts.length ≤ n → valueFrom n (ts ++ rest) = .ok (v, rest)

/-- enough readers read the key of `e` from the start of `ts` and its value from what is left -/
structure ReadsPair (ts : List Token) (e : String × Value) : Prop where
  opens : ∃ t us, ts = t :: us ∧ (t.kind = .label ∨ Opens t)
  read : ∀ n t us rest, 2 * ts.length ≤ n → t :: us = ts ++ rest →
    ∃ r, entryKey (valueFrom n) t us = .ok (e.1, r) ∧
      valueFrom n (skipNewlines r) = .ok (e.2, rest)

lemma Reads.skip {ts : List Token} {v : Value} (h : Reads ts v) {nl : List Token}
    (hn : Newlines nl) (rest : List Token) :
    skipNewlines (nl ++ (ts ++ rest)) = ts ++ rest := by
  obtain ⟨t, us, rfl, ht⟩ := h.opens
  exact skipNewlines_to hn (ht.kind_ne (by decide)) _

lemma Reads.not_newline (ts : List Token) (v : Value) (h : Reads ts v) :
    ∃ t us, ts = t :: us ∧ t.kind ≠ .newline := by
  obtain ⟨t, us, e, ht⟩ := h.opens
  exact ⟨t, us, e, ht.kind_ne (by decide)⟩

lemma Reads.length_pos {ts : List Token} {v : Value} (h : Reads ts v) : 0 < ts.length := by
  obtain ⟨t, us, rfl, -⟩ := h.opens
  simp

/-- nothing is skipped in front of a list whose items begin with no newline -/
lemma Listed.skip_to {α : Type} {p : List Token → α → Prop} {ts : List Token} {as : List α}
    {c : Token} {rest : List Token} (h : Listed p ts as)
    (hp : ∀ ts a, p ts a → ∃ t us, ts = t :: us ∧ t.kind ≠ .newline) (hc : c.kind ≠ .newline) :
    skipNewlines (ts ++ c :: rest) = ts ++ c :: rest := by
  induction h using Listed.induct with
  | empty => exact skipNewlines_of_ne hc rest
  | last ts nl a ha hn =>
    obtain ⟨t, us, rfl, ht⟩ := hp ts a ha
    exact skipNewlines_of_ne ht _
  | cons ts ss us a as ha hs hu _ =>
    obtain ⟨t, us', rfl, ht⟩ := hp ts a ha
    exact skipNewlines_of_ne ht _

lemma reads_literal (t : Token) (v : Value) (h : Literal t v) : Reads [t] v := by
  refine ⟨⟨t, [], rfl, .inl ⟨v, h⟩⟩, fun n rest hn => ?_⟩
  obtain ⟨m, rfl⟩ : ∃ m, n = m + 1 := ⟨n - 1, by simp at hn; omega⟩
  rw [List.singleton_append, valueFrom, (reading_iff t v).mpr h]

lemma itemsFrom_complete {ts : List Token} {vs : List Value} (h : Listed Reads ts vs)
    {c : Token} (hc : c.is closeList = true) :
    ∀ n rest, 2 * ts.length + 1 ≤ n → itemsFrom n (ts ++ c :: rest) = .ok (vs, rest) := by
  have hnot : ∀ {t : Token}, Opens t → startsWith closeList [t] = false := fun ht =>
    ht.not_is rfl (by decide) (by decide)
  have hck : c.kind ≠ .newline := by rw [kind_of_is hc]; decide
  have hcomma : c.is comma = false := not_is_of_is hc (by decide)
  induction h using Listed.induct with
  | empty =>
    intro n rest hn
    obtain ⟨m, rfl⟩ : ∃ m, n = m + 1 := ⟨n - 1, by omega⟩
    rw [List.nil_append, itemsFrom, startsWith_cons, if_pos hc]
    rfl
  | last ts nl v hv hnl =>
    intro n rest hn
    rw [List.length_append] at hn
    obtain ⟨m, rfl⟩ : ∃ m, n = m + 1 := ⟨n - 1, by omega⟩
    have hr := hv.read m (nl ++ c :: rest) (by omega)
    obtain ⟨t, us, rfl, ht⟩ := hv.opens
    rw [List.append_assoc, itemsFrom, if_neg (by simpa [startsWith] using hnot ht), hr, ok_bind]
    dsimp only
    rw [skipNewlines_to hnl hck, startsWith_cons, hcomma, if_neg Bool.false_ne_true,
      expect_of_is hc, ok_bind]
    rfl
  | cons ts ss us v vs hv hss hu ih =>
    intro n rest hn
    simp only [List.length_append] at hn
    obtain ⟨m, rfl⟩ : ∃ m, n = m + 1 := ⟨n - 1, by omega⟩
    have hr := hv.read m (ss ++ (us ++ c :: rest)) (by omega)
    have hi := ih m rest (by have := hv.length_pos; omega)
    obtain ⟨t, us', rfl, ht⟩ := hv.opens
    rw [List.append_assoc, List.append_assoc, itemsFrom,
      if_neg (by simpa [startsWith] using hnot ht), hr, ok_bind]
    dsimp only
    rw [← passNewlines_true (ss ++ _), if_pos (hss.startsWith _), hss.skip,
      hu.skip_to Reads.not_newline hck, hi, ok_bind]
    rfl

lemma reads_list (ts : List Token) (vs : List Value)
    (h : Bracketed Reads openList closeList ts vs) : Reads ts (.list vs) := by
  obtain @⟨t, c, nl, ts, vs, ht, hnl, hts, hc⟩ := h
  refine ⟨⟨t, _, rfl, .inr (.inl ht)⟩, fun n rest hn => ?_⟩
  simp only [List.length_append, List.length_cons, List.length_nil] at hn
  obtain ⟨m, rfl⟩ : ∃ m, n = m + 1 := ⟨n - 1, by omega⟩
  have hi := itemsFrom_complete hts hc m rest (by omega)
  have hk : t.kind = .punct := kind_of_is ht
  rw [List.append_assoc, List.cons_append, List.append_assoc, valueFrom, reading_of_punct hk]
  dsimp only
  rw [if_pos ht, skipNewlines_append hnl, List.singleton_append,
    hts.skip_to Reads.not_newline (by rw [kind_of_is hc]; decide), hi, ok_bind]
  rfl

lemma ReadsPair.not_newline (ts : List Token) (e : String × Value) (h : ReadsPair ts e) :
    ∃ t us, ts = t :: us ∧ t.kind ≠ .newline := by
  obtain ⟨t, us, e, ht⟩ := h.opens
  exact ⟨t, us, e, Begins.kind_ne ht (by decide)⟩

lemma ReadsPair.length_pos {ts : List Token} {e : String × Value} (h : ReadsPair ts e) :
    0 < ts.length := by
  obtain ⟨t, us, rfl, -⟩ := h.opens
  simp

lemma entriesFrom_complete {ts : List Token} {ps : List (String × Value)}
    (h : Listed ReadsPair ts ps) {c : Token} (hc : c.is closeBrace = true) :
    ∀ n es rest, 2 * ts.length + 1 ≤ n →
      entriesFrom n es (ts ++ c :: rest) = .ok (Table.putAll es ps, rest) := by
  have hnot : ∀ {t : Token}, Begins t → t.is closeBrace = false := fun ht =>
    ht.not_is rfl (by decide) (by decide)
  have hck : c.kind ≠ .newline := by rw [kind_of_is hc]; decide
  have hcomma : c.is comma = false := not_is_of_is hc (by decide)
  induction h using Listed.induct with
  | empty =>
    intro n es rest hn
    obtain ⟨m, rfl⟩ : ∃ m, n = m + 1 := ⟨n - 1, by omega⟩
    rw [List.nil_append, entriesFrom, if_pos hc]
    rfl
  | last ts nl e he hnl =>
    intro n es rest hn
    rw [List.length_append] at hn
    obtain ⟨m, rfl⟩ : ∃ m, n = m + 1 := ⟨n - 1, by omega⟩
    obtain ⟨t, us, rfl, ht⟩ := he.opens
    obtain ⟨r, hk, hv⟩ := he.read m t (us ++ (nl ++ c :: rest)) (nl ++ c :: rest) (by omega) rfl
    rw [List.append_assoc, List.cons_append, entriesFrom, hnot ht, if_neg Bool.false_ne_true, hk,
      ok_bind]
    dsimp only
    rw [hv, ok_bind]
    dsimp only
    rw [skipNewlines_to hnl hck, startsWith_cons, hcomma, if_neg Bool.false_ne_true,
      expect_of_is hc, ok_bind]
    rfl
  | cons ts ss us e ps he hss hu ih =>
    intro n es rest hn
    simp only [List.length_append] at hn
    obtain ⟨m, rfl⟩ : ∃ m, n = m + 1 := ⟨n - 1, by omega⟩
    have hi := ih m (Table.put e.1 e.2 es) rest (by have := he.length_pos; omega)
    obtain ⟨t, us', rfl, ht⟩ := he.opens
    obtain ⟨r, hk, hv⟩ := he.read m t (us' ++ (ss ++ (us ++ c :: rest))) (ss ++ (us ++ c :: rest))
      (by omega) rfl
    rw [List.append_assoc, List.append_assoc, List.cons_append, entriesFrom, hnot ht,
      if_neg Bool.false_ne_true, hk, ok_bind]
    dsimp only
    rw [hv, ok_bind]
    dsimp only
    rw [← passNewlines_true (ss ++ _), if_pos (hss.startsWith _), hss.skip,
      hu.skip_to ReadsPair.not_newline hck, hi]
    rfl

lemma reads_hash (ts : List Token) (es : List (String × Value))
    (h : Bracketed ReadsPair openBrace closeBrace ts es) :
    Reads ts (.hash (Table.putAll [] es)) := by
  obtain @⟨t, c, nl, ts, es, ht, hnl, hts, hc⟩ := h
  refine ⟨⟨t, _, rfl, .inr (.inr ht)⟩, fun n rest hn => ?_⟩
  simp only [List.length_append, List.length_cons, List.length_nil] at hn
  obtain ⟨m, rfl⟩ : ∃ m, n = m + 1 := ⟨n - 1, by omega⟩
  have hi := entriesFrom_complete hts hc m [] rest (by omega)
  have hk : t.kind = .punct := kind_of_is ht
  have hl : t.is openList = false := not_is_of_is ht (by decide)
  rw [List.append_assoc, List.cons_append, List.append_assoc, valueFrom, reading_of_punct hk]
  dsimp only
  rw [hl, if_neg Bool.false_ne_true, if_pos ht, skipNewlines_append hnl, List.singleton_append,
    hts.skip_to ReadsPair.not_newline (by rw [kind_of_is hc]; decide), hi, ok_bind]
  rfl

lemma readsPair_label (t : Token) (nl ts : List Token) (v : Value) (ht : t.kind = .label)
    (hn : Newlines nl) (h : Reads ts v) : ReadsPair (t :: (nl ++ ts)) (t.labelName, v) := by
  refine ⟨⟨t, _, rfl, .inl ht⟩, fun n u us rest hle e => ?_⟩
  obtain ⟨rfl, rfl⟩ := List.cons.inj e
  simp only [List.length_append, List.length_cons] at hle
  refine ⟨nl ++ ts ++ rest, ?_, ?_⟩
  · rw [entryKey, if_pos ((isKind_iff _ _).mpr ht)]
    rfl
  · rw [List.append_assoc, h.skip hn]
    exact h.read n rest (by omega)

lemma readsPair_arrow (u : Token) (ks nl ts : List Token) (k : String) (v : Value)
    (hk : Reads ks (.str k)) (hu : u.is arrowSign = true) (hn : Newlines nl) (h : Reads ts v) :
    ReadsPair (ks ++ u :: (nl ++ ts)) (k, v) := by
  obtain ⟨t, ks, rfl, ht⟩ := hk.opens
  refine ⟨⟨t, _, rfl, .inr ht⟩, fun n t' us rest hle e => ?_⟩
  obtain ⟨rfl, -⟩ := List.cons.inj e
  simp only [List.length_append, List.length_cons] at hle
  refine ⟨nl ++ ts ++ rest, ?_, ?_⟩
  · have hl : t'.isKind .label = false := by
      have := ht.kind_ne (k := .label) (by decide)
      simp [Token.isKind, this]
    have hr := hk.read n (u :: (nl ++ ts ++ rest)) (by simp only [List.length_cons]; omega)
    have e' : t' :: us = t' :: ks ++ u :: (nl ++ ts ++ rest) := by rw [e]; simp
    rw [entryKey, hl, if_neg Bool.false_ne_true, e', hr, ok_bind]
    dsimp only
    rw [keyOf, ok_bind, expect_of_is hu]
    rfl
  · rw [List.append_assoc, h.skip hn]
    exact h.read n rest (by omega)

lemma reads_iff : (∀ ts v, IsValue ts v → Reads ts v) ∧ ∀ ts e, IsPair ts e → ReadsPair ts e :=
  IsValue.induct reads_literal reads_list reads_hash readsPair_label readsPair_arrow

theorem value_complete {ts : List Token} {v : Value} (h : IsValue ts v) (rest : List Token) :
    Value.ofTokens (ts ++ rest) = .ok (v, rest) := by
  apply (reads_iff.1 ts v h).read
  rw [readers, List.length_append]
  omega

end Gemfile.Grammar
