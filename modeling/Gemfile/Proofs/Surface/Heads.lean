import Gemfile.Proofs.Surface.Forms

/-!
# First tokens in other forms

What a reader sees of tokens that are recast before it takes some of them: the first token, the marks
and the newlines.

* `Head t u`                a row of tokens that begins with `t` may begin with `u` instead
* `Head.is_eq`, `Head.isKind_eq`, `Head.startsArgument_eq`   readers see the same in both
* `opensBlock_of_reading`   no value is something that a block in braces stands behind
* `Recast.cons`, `Recast.cons_label`, `Recast.drop`, `Recast.skip`   tokens taken on both sides
-/

namespace Gemfile.Surface
open Token Grammar Statement

/-- a token around a block -/
def Bounds (t : Token) : Prop :=
  t.is (word "do") = true ∨ t.is (word "end") = true ∨ t.is openBrace = true ∨ t.is closeBrace = true

/-- a token that a value begins with which is no hash, or a label in front of one -/
def Leading (t : Token) : Prop := Begins t ∧ t.is openBrace = false

/-- marks that no form is exchanged for -/
def separators : List Mark := [comma, closeList, openCall, closeCall]

/-- the kinds of tokens that may be written otherwise -/
def exchangeable : List Token.Kind := [.symbol, .label, .words, .name]

inductive Head : Token → Token → Prop
  | same (t : Token) : Head t t
  | leading {t u : Token} : Leading t → Leading u → u.kind ≠ .label → Head t u
  | bounds {t u : Token} : delimits t = true → Bounds u → Head t u

section
variable {t u : Token} {k : List Bool} {b : Bool} {x y us : List Token} {m : Mark}

lemma isKind_eq_false {l : Token.Kind} (h : t.kind ≠ l) : t.isKind l = false := by
  simp [Token.isKind, h]

lemma Bounds.follows (h : Bounds t) : Follows t := .inr (.inr h)

lemma Bounds.of_delimits (h : delimits t = true) : Bounds t := by
  rcases Bool.or_eq_true_iff.mp h with h | h
  · exact .inl h
  · exact .inr (.inl h)

lemma Bounds.kind_ne (h : Bounds t) {l : Token.Kind} (hl : l ∉ [.name, .punct]) : t.kind ≠ l := by
  rintro rfl
  apply hl
  rcases h with h | h | h | h
  all_goals
    rw [kind_of_is h]
    decide

lemma names_punct : [Token.Kind.name, .punct] ⊆ .punct :: literalKinds := by decide

lemma Leading.of_kind (h : Begins t) (hk : t.kind ≠ .punct) : Leading t := ⟨h, not_is_of_kind hk⟩

lemma Leading.of_reading {v : Value} (h : t.reading = .value v) : Leading t := by
  have literal := (reading_iff t v).mp h
  refine .of_kind (.inr (.inl ⟨v, literal⟩)) fun hk => ?_
  have := literal.kind_mem
  rw [hk] at this
  exact absurd this (by decide)

lemma symbol_reading {k : List Char} (hk : t.kind = .symbol) (ht : t.text = ':' :: k)
    (hq : ¬ Quoted k) : t.reading = .value (.str (String.ofList k)) := by
  have := Literal.symbol hk (by rwa [ht])
  rw [ht] at this
  exact this.reading_eq

lemma Respelled.leading (h : Respelled t us) :
    ∃ u vs, us = u :: vs ∧ Leading t ∧ Leading u ∧ u.kind ≠ .label := by
  cases h with
  | symbol hk ht hu hr =>
    exact ⟨_, _, rfl, .of_reading ht, .of_reading hr, by rw [hu]; decide⟩
  | label hk _ _ hq hu ht _ =>
    have leading : Leading t := .of_kind (.inl hk) (by rw [hk]; decide)
    exact ⟨_, _, rfl, leading, .of_reading (symbol_reading hu ht hq), by rw [hu]; decide⟩
  | words hk ht hb =>
    obtain ⟨ho, -, -, -⟩ := hb
    have opens : Leading _ := ⟨.inr (.inr (.inl ho)), not_is_of_is ho (by decide)⟩
    exact ⟨_, _, rfl, .of_reading ht, opens, by rw [kind_of_is ho]; decide⟩

lemma Respelled.kind_ne (h : Respelled t us) {l : Token.Kind} (hl : l ∉ [.symbol, .label, .words]) :
    t.kind ≠ l := by
  rintro rfl
  apply hl
  cases h with
  | symbol hk => simp [hk]
  | label hk => simp [hk]
  | words hk => simp [hk]

lemma Delimiter.head {braces : Bool} (h : Delimiter braces m t u) (ht : delimits t = true)
    (hm : u.is m = true → Bounds u) : Head t u := by
  cases braces with
  | false =>
    obtain rfl := h.1 rfl
    exact .same u
  | true => exact .bounds ht (hm (h.2 rfl))

lemma Recast.head (h : Recast k b (t :: x) y) : ∃ u vs, y = u :: vs ∧ Head t u := by
  cases h with
  | same _ _ => exact ⟨_, _, rfl, .same t⟩
  | respelled hr _ =>
    obtain ⟨u, vs, rfl, ht, hu, hk⟩ := hr.leading
    exact ⟨u, _, rfl, .leading ht hu hk⟩
  | opening ht hd _ _ =>
    exact ⟨_, _, rfl, hd.head (delimits_of_do ht) fun h => .inr (.inr (.inl h))⟩
  | closing ht hd _ =>
    exact ⟨_, _, rfl, hd.head (delimits_of_end ht) fun h => .inr (.inr (.inr h))⟩

lemma separators_ne :
    ∀ m ∈ separators, m.kind = .punct ∧ openList ≠ m ∧ openBrace ≠ m ∧ closeBrace ≠ m := by
  decide

lemma Head.is_eq (h : Head t u) (hm : m ∈ separators) : u.is m = t.is m := by
  obtain ⟨hk, h1, h2, h3⟩ := separators_ne m hm
  cases h with
  | same => rfl
  | leading ht hu => rw [ht.1.not_is hk h1 h2, hu.1.not_is hk h1 h2]
  | bounds ht hu =>
    rw [(Bounds.of_delimits ht).follows.not_is hk h2 h3, hu.follows.not_is hk h2 h3]

lemma Head.isKind_eq (h : Head t u) {l : Token.Kind} (hl : l ∉ .label :: .punct :: literalKinds) :
    u.isKind l = t.isKind l := by
  cases h with
  | same => rfl
  | leading ht hu => rw [isKind_eq_false (ht.1.kind_ne hl), isKind_eq_false (hu.1.kind_ne hl)]
  | bounds ht hu =>
    have hl' : l ∉ [.name, .punct] := fun hmem => hl (List.mem_cons_of_mem _ (names_punct hmem))
    rw [isKind_eq_false ((Bounds.of_delimits ht).kind_ne hl'), isKind_eq_false (hu.kind_ne hl')]

lemma Head.startsArgument_eq (h : Head t u) : startsArgument u = startsArgument t := by
  cases h with
  | same => rfl
  | leading ht hu => rw [startsArgument_of_head ht.1 ht.2, startsArgument_of_head hu.1 hu.2]
  | bounds ht hu =>
    rw [(Bounds.of_delimits ht).follows.not_startsArgument, hu.follows.not_startsArgument]

lemma Head.not_label (h : Head t u) (ht : t.isKind .label = false) : u.isKind .label = false := by
  cases h with
  | same => exact ht
  | leading _ _ hu => exact isKind_eq_false hu
  | bounds _ hu => exact isKind_eq_false (hu.kind_ne (by decide))

/-! ## marks and newlines -/

lemma Recast.startsWith_eq (h : Recast k b x y) (hm : m ∈ separators) :
    startsWith m y = startsWith m x := by
  cases x with
  | nil =>
    cases h
    rfl
  | cons t x =>
    obtain ⟨u, vs, rfl, hu⟩ := h.head
    exact hu.is_eq hm

/-- what is no value and not around a block stays as it is -/
lemma Recast.cons (h : Recast k b (t :: x) y) (ht : t.kind ∉ exchangeable) :
    ∃ z, y = t :: z ∧ Recast k (opensBlock t) x z := by
  have name : t.kind ≠ .name := fun hk => ht (by rw [hk]; decide)
  cases h with
  | same _ h => exact ⟨_, rfl, h⟩
  | respelled hr _ =>
    refine absurd rfl (hr.kind_ne fun hmem => ht ?_)
    exact List.mem_append_left [.name] hmem
  | opening hd _ _ _ => exact absurd (kind_of_is hd) name
  | closing he _ _ => exact absurd (kind_of_is he) name

lemma opensBlock_of_kind (h : t.kind ≠ .name) (h' : t.kind ≠ .punct) : opensBlock t = false := by
  unfold opensBlock
  rw [not_is_of_kind (m := closeCall) h', Bool.false_or]
  simp [startsStatement, Token.isKind, h]

lemma startsStatement_of_reserved {s : String} (h : t.is (word s) = true)
    (hs : s ∈ reserved) : startsStatement t = false := by
  rw [Bool.eq_false_iff]
  intro ht
  rw [((startsStatement_iff t).mp ht).not_word hs] at h
  cases h

lemma opensBlock_of_reading {v : Value} (h : t.reading = .value v) :
    opensBlock t = false := by
  have literal := (reading_iff t v).mp h
  have bracket : t.is closeCall = false := not_is_of_kind fun hk => by
    have := literal.kind_mem
    rw [hk] at this
    exact absurd this (by decide)
  unfold opensBlock
  rw [bracket, Bool.false_or]
  -- keywords are reserved, and other literals are no names
  cases literal with
  | string hk _ => simp [startsStatement, Token.isKind, hk]
  | symbol hk _ => simp [startsStatement, Token.isKind, hk]
  | quotedSymbol hk _ _ => simp [startsStatement, Token.isKind, hk]
  | number hk => simp [startsStatement, Token.isKind, hk]
  | words hk => simp [startsStatement, Token.isKind, hk]
  | true ht => exact startsStatement_of_reserved ht (by decide)
  | false ht => exact startsStatement_of_reserved ht (by decide)
  | nil ht => exact startsStatement_of_reserved ht (by decide)

lemma opensBlock_of_is (h : t.is m = true) (hm : m.kind ≠ .name) :
    opensBlock t = decide (m = closeCall) := by
  have statement : startsStatement t = false := by
    simp [startsStatement, Token.isKind, kind_of_is h, hm]
  unfold opensBlock
  rw [statement, Bool.or_false]
  by_cases e : m = closeCall
  · rw [← e, h, decide_eq_true rfl]
  · rw [not_is_of_is h e, decide_eq_false e]

lemma Recast.cons_of_is (h : Recast k b (t :: x) y) (ht : t.is m = true)
    (hm : m.kind ∉ exchangeable) :
    ∃ z, y = t :: z ∧ Recast k (decide (m = closeCall)) x z := by
  obtain ⟨z, e, hz⟩ := h.cons (by rwa [kind_of_is ht])
  rw [opensBlock_of_is ht fun e => hm (by rw [e]; decide)] at hz
  exact ⟨z, e, hz⟩

/-- a label keeps its place, or is a symbol with an arrow behind it -/
lemma Recast.cons_label (h : Recast k b (t :: x) y) (ht : t.kind = .label) :
    (∃ z, y = t :: z ∧ Recast k false x z) ∨ ∃ u a z, y = u :: a :: z ∧ u.kind = .symbol ∧
      u.reading = .value (.str t.labelName) ∧ a.is arrowSign = true ∧ Recast k false x z := by
  cases h with
  | same _ h =>
    rw [opensBlock_of_kind (by rw [ht]; decide) (by rw [ht]; decide)] at h
    exact .inl ⟨_, rfl, h⟩
  | respelled hr h =>
    refine .inr ?_
    cases hr with
    | symbol hk => cases hk.symm.trans ht
    | @label u a name _ htext _ hq hu hut ha =>
      have key : t.labelName = String.ofList name := by
        rw [labelName, htext, List.dropLast_concat]
      rw [key]
      exact ⟨u, a, _, rfl, hu, symbol_reading hu hut hq, ha, h⟩
    | words hk => cases hk.symm.trans ht
  | opening hd _ _ _ => cases (kind_of_is hd).symm.trans ht
  | closing he _ _ => cases (kind_of_is he).symm.trans ht

lemma Recast.drop (h : Recast k b x y) (hs : startsWith m x = true)
    (hm : m.kind ∉ exchangeable) :
    Recast k (decide (m = closeCall)) (x.drop 1) (y.drop 1) ∧ (y.drop 1).length + 1 = y.length := by
  cases x with
  | nil => cases hs
  | cons t x =>
    obtain ⟨z, rfl, hz⟩ := h.cons_of_is hs hm
    exact ⟨hz, rfl⟩

lemma Recast.skip (h : Recast k b x y) : Recast k b (skipNewlines x) (skipNewlines y) := by
  induction x generalizing b y with
  | nil =>
    cases h
    exact .nil
  | cons t x ih =>
    by_cases hk : t.kind = .newline
    · obtain ⟨z, rfl, hz⟩ := h.cons (by rw [hk]; decide)
      have pass (ts : List Token) : skipNewlines (t :: ts) = skipNewlines ts :=
        @skipNewlines_append [t] (List.forall_mem_singleton.mpr hk) ts
      have shut : opensBlock t = false :=
        opensBlock_of_kind (by rw [hk]; decide) (by rw [hk]; decide)
      rw [shut] at hz
      rw [pass, pass]
      exact (ih hz).weaken
    · obtain ⟨u, vs, rfl, hu⟩ := h.head
      have hk' : u.kind ≠ .newline := by
        have := hu.isKind_eq (l := .newline) (by decide)
        simpa [Token.isKind, hk] using this
      rwa [skipNewlines_of_ne hk, skipNewlines_of_ne hk']

end

end Gemfile.Surface
