import Gemfile.Proofs.Surface.Blocks
import Gemfile.Proofs.Surface.Reading
import Mathlib.Logic.Relation

/-!
# Surface forms are interchangeable

* `Surface.callOf_leads`           the call behind the name of a statement is read the same
* `Surface.blockEnd?_none`, `Surface.blockEnd?_some`   no block, or a block between other marks
* `Surface.Ends k c c' j`          what ends in front of `c` ends in front of `c'` among recast tokens
* `Surface.statementsLead`         so statements are read the same from tokens that are recast
* `Statement.ofTokens_exchanged`   and whole files, with any number of forms exchanged, any label of a
                                   text and any block of the grammar among them
-/

namespace Gemfile
open Token Grammar Statement

namespace Surface

section
variable {k j : List Bool} {b : Bool} {t u : Token} {x y : List Token} {c : Call} {bracketed : Bool}

/-! ## calls -/

/-- the same call, and where a brace may have become of the `do` behind it -/
inductive CallLeft (k : List Bool) (n : Nat) :
    Call × Bool × List Token → Call × Bool × List Token → Prop
  | mk {c : Call} {bracketed b : Bool} {r s : List Token} :
      Recast k b r s → (b = true → bracketed = true ∨ c = Call.empty) → s.length < n →
      CallLeft k n (c, bracketed, r) (c, bracketed, s)

lemma callOf_leads (h : Recast k true x y) :
    Leads (CallLeft k (y.length + 1)) (callOf x) (callOf y) := by
  cases x with
  | nil => exact .error _ _
  | cons t x =>
    obtain ⟨u, z, rfl, hu⟩ := h.head
    rw [callOf, callOf, hu.is_eq (m := openCall) (by decide)]
    split
    · next ho =>
      obtain ⟨_, e, h⟩ := h.cons_of_is ho (by decide)
      obtain ⟨rfl, rfl⟩ := List.cons.inj e
      refine (inBrackets_leads h).bind ?_
      rintro ⟨c, r⟩ ⟨_, s⟩ ⟨hs, hl⟩
      have hlen : s.length < (u :: z).length + 1 := by
        rw [List.length_cons]
        omega
      exact .ok (.mk hs (fun _ => .inl rfl) hlen)
    · rw [hu.startsArgument_eq]
      split
      · refine (bare_leads h).bind ?_
        rintro ⟨c, r⟩ ⟨_, s⟩ ⟨hs, hl⟩
        exact .ok (.mk hs (fun e => absurd e Bool.false_ne_true) (Nat.lt_succ_of_lt hl))
      · exact .ok (.mk h (fun _ => .inr rfl) (Nat.lt_succ_self _))

/-! ## the ends of blocks -/

/-- `j` are the blocks around the one that ends -/
inductive Ends : List Bool → Option Mark → Option Mark → List Bool → Prop
  | file (k : List Bool) : Ends k none none k
  | brace (k : List Bool) : Ends k (some closeBrace) (some closeBrace) k
  | word (braces : Bool) (k : List Bool) :
      Ends (braces :: k) (some (word "end")) (some (if braces then closeBrace else word "end")) k

lemma Ends.isClosing {c c' : Option Mark} (h : Ends k c c' j) : Closing c' := by
  cases h with
  | file => exact .inl rfl
  | brace => exact .inr (.inr rfl)
  | word braces k =>
    cases braces with
    | false => exact .inr (.inl rfl)
    | true => exact .inr (.inr rfl)

lemma Recast.cons_end (h : Recast k b (t :: x) y) (ht : t.is (word "end") = true) :
    ∃ u z, y = u :: z ∧ Delimiter (k.headD false) closeBrace t u ∧ Recast k.tail false x z := by
  cases h with
  | same hd _ => cases hd.symm.trans (delimits_of_end ht)
  | respelled hr _ => exact absurd (kind_of_is ht) (hr.kind_ne (by decide))
  | opening hd _ _ _ => cases (not_is_of_is hd (by decide)).symm.trans ht
  | closing _ hd h => exact ⟨_, _, rfl, hd, h⟩

/-- the token in front of which a sequence ends -/
lemma Recast.end_cons {c c' : Option Mark} (h : Recast k b (t :: x) y) (he : Ends k c c' j)
    (ht : c.any t.is = true) :
    ∃ u z, y = u :: z ∧ c'.any u.is = true ∧ Recast j false x z := by
  cases he with
  | file => cases ht
  | brace =>
    obtain ⟨z, e, hz⟩ := h.cons_of_is (m := closeBrace) ht (by decide)
    exact ⟨t, z, e, ht, hz⟩
  | word braces =>
    obtain ⟨u, z, rfl, hd, h⟩ := h.cons_end ht
    refine ⟨u, z, rfl, ?_, h⟩
    cases braces with
    | false =>
      obtain rfl := hd.1 rfl
      exact ht
    | true => exact hd.2 rfl

/-- a token behind which a sequence goes on or ends -/
lemma Recast.endsStatement {c c' : Option Mark} (h : Recast k b (t :: x) (u :: y))
    (he : Ends k c c' j) (ht : endsStatement c t = true) : endsStatement c' u = true := by
  simp only [Statement.endsStatement, Bool.or_eq_true] at ht ⊢
  obtain ⟨_, _, e, hu⟩ := h.head
  obtain ⟨rfl, rfl⟩ := List.cons.inj e
  rcases ht with (ht | ht) | ht
  · exact .inl (.inl ((hu.isKind_eq (by decide)).trans ht))
  · exact .inl (.inr ((hu.isKind_eq (by decide)).trans ht))
  · obtain ⟨_, _, e, hu, _⟩ := h.end_cons he ht
    obtain ⟨rfl, -⟩ := List.cons.inj e
    exact .inr hu

/-! ## the beginnings of blocks -/

lemma Leading.not_bounds (h : Leading t) : ¬ Bounds t := by
  intro hb
  have := hb.follows.not_startsArgument
  rw [startsArgument_of_head h.1 h.2] at this
  cases this

lemma blockEnd?_of_not {m : Token} (hd : m.is (word "do") = false) (ho : m.is openBrace = false)
    (c : Call) (bracketed : Bool) (x : List Token) : blockEnd? c bracketed (m :: x) = none := by
  simp [blockEnd?, startsWith, hd, ho]

lemma blockEnd?_none (h : Recast k b x y) (hx : blockEnd? c bracketed x = none) :
    blockEnd? c bracketed y = none := by
  cases h with
  | nil => exact hx
  | same _ _ => exact hx
  | respelled hr _ =>
    obtain ⟨u, vs, rfl, -, hu, -⟩ := hr.leading
    have word : u.is (word "do") = false := Bool.eq_false_iff.mpr fun hd => hu.not_bounds (.inl hd)
    exact blockEnd?_of_not word hu.2 c bracketed _
  | opening ht _ _ _ =>
    unfold blockEnd? at hx
    rw [startsWith_cons, if_pos ht] at hx
    cases hx
  | @closing _ _ t u x y ht hd _ =>
    cases hk : k.headD false with
    | false =>
      obtain rfl := hd.1 hk
      exact blockEnd?_of_not (not_is_of_is ht (by decide)) (not_is_of_is ht (by decide)) c bracketed _
    | true =>
      have hu := hd.2 hk
      exact blockEnd?_of_not (not_is_of_is hu (by decide)) (not_is_of_is hu (by decide)) c bracketed _

lemma blockEnd?_some {m : Mark} (h : Recast k b x y)
    (hb : b = true → bracketed = true ∨ c = Call.empty) (hx : blockEnd? c bracketed x = some m) :
    ∃ i m', blockEnd? c bracketed y = some m' ∧ Ends i (some m) (some m') k ∧
      Recast i false (x.drop 1) (y.drop 1) ∧ (y.drop 1).length + 1 = y.length := by
  cases x with
  | nil => cases hx
  | cons t x =>
    have same := hx
    unfold blockEnd? at hx
    split at hx
    · next hd =>
      obtain rfl := Option.some.inj hx
      cases h with
      | same ht _ => cases (not_is_of_delimits ht (.inl rfl)).symm.trans hd
      | respelled hr _ => exact absurd (kind_of_is hd) (hr.kind_ne (by decide))
      | @opening _ _ braces _ u _ y _ hu hbraces h =>
        refine ⟨_, _, ?_, .word braces k, h, rfl⟩
        cases braces with
        | false =>
          obtain rfl := hu.1 rfl
          exact if_pos hd
        | true =>
          have brace := hu.2 rfl
          have cond : (bracketed || decide (c = Call.empty)) = true := by
            simpa using hb (hbraces rfl)
          have word : u.is (word "do") = false := not_is_of_is brace (by decide)
          unfold blockEnd?
          rw [startsWith_cons, startsWith_cons, word, brace, cond]
          rfl
      | closing he _ _ => cases (not_is_of_is he (by decide)).symm.trans hd
    · split at hx
      · next ho =>
        obtain rfl := Option.some.inj hx
        have brace : t.is openBrace = true := (Bool.and_eq_true_iff.mp ho).1
        obtain ⟨z, rfl, hz⟩ := h.cons_of_is brace (by decide)
        exact ⟨k, closeBrace, same, .brace k, hz, rfl⟩
      · cases hx

end

/-! ## statements -/

/-- statements up to a mark, with the mark in front of the tokens that are left -/
structure SequenceLeft (k : List Bool) (n : Nat) (c : Option Mark)
    (p q : Parsed (List Statement)) : Prop where
  left : Left k true n p q
  ended : ∀ m, c = some m → startsWith m p.2 = true

/-- any number of readers that is enough reads what `n` readers read -/
structure StatementsLead (n : Nat) : Prop where
  sequence : ∀ m k b c c' j x y, Recast k b x y → Ends k c c' j → 2 * y.length + 1 ≤ m →
    Leads (SequenceLeft k (y.length + 1) c) (sequenceFrom n c x) (sequenceFrom m c' y)
  statement : ∀ m k b x y, Recast k b x y → 2 * y.length ≤ m →
    Leads (Left k true y.length) (statementFrom n x) (statementFrom m y)

/-- a statement begins with its name, which stays -/
lemma Recast.cons_name {k : List Bool} {b : Bool} {t : Token} {x y : List Token}
    (h : Recast k b (t :: x) y) (ht : startsStatement t = true) :
    ∃ z, y = t :: z ∧ Recast k true x z := by
  have name := (startsStatement_iff t).mp ht
  cases h with
  | same _ h =>
    have opens : opensBlock t = true := Bool.or_eq_true_iff.mpr (.inr ht)
    rw [opens] at h
    exact ⟨_, rfl, h⟩
  | respelled hr _ => exact absurd name.1 (hr.kind_ne (by decide))
  | opening hd _ _ _ => cases (name.not_word (by decide)).symm.trans hd
  | closing he _ _ => cases (name.not_word (by decide)).symm.trans he

lemma statementFrom_of_not {t : Token} (ht : startsStatement t = false) (n : Nat) (x : List Token) :
    ∃ f, statementFrom n (t :: x) = .error f := by
  cases n with
  | zero => exact ⟨_, by rw [statementFrom]⟩
  | succ n =>
    refine ⟨⟨t.line, .expectedStatement t.spelling⟩, ?_⟩
    rw [statementFrom, ht]
    rfl

section
variable {n : Nat} (hn : StatementsLead n)
include hn

lemma statementFrom_leads (m : Nat) (k : List Bool) (b : Bool) (x y : List Token)
    (h : Recast k b x y) (hm : 2 * y.length ≤ m) :
    Leads (Left k true y.length) (statementFrom (n + 1) x) (statementFrom m y) := by
  cases x with
  | nil =>
    rw [statementFrom]
    exact .error _ _
  | cons t x =>
    cases ht : startsStatement t with
    | false =>
      obtain ⟨f, hf⟩ := statementFrom_of_not ht (n + 1) x
      rw [hf]
      exact .error _ _
    | true =>
      obtain ⟨z, rfl, hz⟩ := h.cons_name ht
      rw [List.length_cons] at hm ⊢
      obtain ⟨m, rfl⟩ : ∃ m', m = m' + 1 := ⟨m - 1, by omega⟩
      rw [statementFrom, statementFrom, if_pos ht, if_pos ht]
      refine (callOf_leads hz).bind ?_
      rintro ⟨c, bracketed, r⟩ ⟨_, _, s⟩ ⟨hs, hb, hl⟩
      dsimp only
      cases hx : blockEnd? c bracketed r with
      | none =>
        rw [blockEnd?_none hs hx]
        exact .ok (.mk (hs.mono fun _ => rfl) hl)
      | some e =>
        obtain ⟨i, e', hy, hends, hbody, hlen⟩ := blockEnd?_some hs hb hx
        rw [hy]
        dsimp only
        refine (hn.sequence m i _ _ _ _ _ _ hbody hends (by omega)).bind ?_
        rintro ⟨body, r'⟩ ⟨_, s'⟩ ⟨⟨hs', hl'⟩, hended⟩
        cases r' with
        | nil => cases hended e rfl
        | cons w r' =>
          obtain ⟨w', z', rfl, -, hz'⟩ := hs'.end_cons hends (hended e rfl)
          have hlen' : z'.length < z.length + 1 := by
            rw [List.length_cons] at hl'
            omega
          exact .ok (.mk hz'.weaken hlen')

lemma sequenceFrom_leads (m : Nat) (k : List Bool) (b : Bool) (c c' : Option Mark) (j : List Bool)
    (x y : List Token) (h : Recast k b x y) (he : Ends k c c' j) (hm : 2 * y.length + 1 ≤ m) :
    Leads (SequenceLeft k (y.length + 1) c) (sequenceFrom (n + 1) c x) (sequenceFrom m c' y) := by
  obtain ⟨m, rfl⟩ : ∃ m', m = m' + 1 := ⟨m - 1, by omega⟩
  have hskip := length_skipNewlines_le y
  have hrest := h.skip
  rw [sequenceFrom, sequenceFrom]
  cases hx : skipNewlines x with
  | nil => exact .error _ _
  | cons t r =>
    rw [hx] at hrest
    obtain ⟨u, s, hy, -⟩ := hrest.head
    rw [hy] at hrest hskip ⊢
    rw [List.length_cons] at hskip
    dsimp only
    by_cases hc : c.any t.is = true
    · -- the mark that ends this sequence, in either form
      obtain ⟨_, _, e, hc', _⟩ := hrest.end_cons he hc
      obtain ⟨rfl, rfl⟩ := List.cons.inj e
      rw [if_pos hc, if_pos hc']
      refine .ok ⟨.mk (hrest.mono fun _ => rfl) (Nat.lt_succ_of_le hskip), ?_⟩
      rintro m rfl
      exact hc
    · rw [if_neg hc]
      by_cases hk : t.isKind .endOfFile = true
      · -- the end of the file, which is an end only outside of blocks
        obtain ⟨_, e, _⟩ := hrest.cons (by rw [(isKind_iff _ _).mp hk]; decide)
        obtain ⟨rfl, rfl⟩ := List.cons.inj e
        rw [if_pos hk]
        cases he with
        | file =>
          rw [if_neg (by simp), if_pos hk]
          refine .ok ⟨.mk (hrest.mono fun _ => rfl) (Nat.lt_succ_of_le hskip), ?_⟩
          rintro m ⟨⟩
        | brace => exact .error _ _
        | word => exact .error _ _
      · rw [if_neg hk]
        cases ht : startsStatement t with
        | false =>
          obtain ⟨f, hf⟩ := statementFrom_of_not ht n r
          rw [hf]
          exact .error _ _
        | true =>
          -- a name is no end of the other form either
          obtain ⟨_, e, _⟩ := hrest.cons_name ht
          obtain ⟨rfl, rfl⟩ := List.cons.inj e
          have name := (startsStatement_iff u).mp ht
          rw [name.not_closing he.isClosing, if_neg Bool.false_ne_true, if_neg hk]
          refine (hn.statement m _ _ _ _ hrest (by rw [List.length_cons]; omega)).bind ?_
          rintro ⟨st, r'⟩ ⟨_, s'⟩ ⟨hs, hl⟩
          rw [List.length_cons] at hl
          cases r' with
          | nil => exact .error _ _
          | cons v r' =>
            obtain ⟨w, s', rfl, -⟩ := hs.head
            dsimp only
            by_cases hv : endsStatement c v = true
            · rw [if_pos hv, if_pos (hs.endsStatement he hv)]
              refine (hn.sequence m _ _ _ _ _ _ _ hs he (by omega)).bind ?_
              rintro ⟨ss, r''⟩ ⟨_, s''⟩ ⟨⟨hs', hl'⟩, hended⟩
              have hlen : s''.length < y.length + 1 := by omega
              exact .ok ⟨.mk hs' hlen, hended⟩
            · rw [if_neg hv]
              exact .error _ _

end

theorem statementsLead (n : Nat) : StatementsLead n := by
  induction n with
  | zero =>
    constructor
    · intro m k b c c' j x y _ _ _
      rw [sequenceFrom]
      exact .error _ _
    · intro m k b x y _ _
      rw [statementFrom]
      exact .error _ _
  | succ n ih => exact ⟨sequenceFrom_leads ih, statementFrom_leads ih⟩

end Surface

namespace Statement
open Surface

lemma ofTokens_of_step {ts us : List Token} {ss : List Statement} (h : Step ts us)
    (hts : ofTokens ts = .ok ss) : ofTokens us = .ok ss := by
  obtain ⟨p, hp, rfl⟩ := map_eq_ok.mp hts
  have leads := (statementsLead (readers ts)).sequence (readers us) [] true none none [] ts us
    h.recast (.file []) (by unfold readers; omega)
  obtain ⟨q, hq, ⟨hleft⟩, -⟩ := leads p hp
  unfold ofTokens
  rw [hq]
  rfl

lemma ofTokens_of_steps {ts us : List Token} {ss : List Statement}
    (h : Relation.ReflTransGen Step ts us) (hts : ofTokens ts = .ok ss) : ofTokens us = .ok ss := by
  induction h with
  | refl => exact hts
  | tail _ hstep ih => exact ofTokens_of_step hstep ih

/-- **Surface forms are interchangeable.**  A file that is read is read the same with any number of
forms exchanged: a symbol for a text, a label for a symbol and an arrow, a list of words for a list of
texts, and braces for the `do` and the `end` of a block behind round brackets or behind no arguments.
Any label of a scanned text is exchanged so, and any such block of the grammar. -/
theorem ofTokens_exchanged :
    (∀ {ts us : List Token} {ss : List Statement}, Relation.ReflTransGen Step ts us →
      ofTokens ts = .ok ss → ofTokens us = .ok ss) ∧
    (∀ {cs : List Char} {ts : List Token} {t : Token}, scan cs = .ok ts → t ∈ ts → t.kind = .label →
      Exchange [t] [⟨.symbol, ':' :: t.text.dropLast, t.line⟩, ⟨.arrow, "=>".toList, t.line⟩]) ∧
    ∀ {f : Grammar.Form} {c : Call} {ss : List Statement} {t o e o' e' : Token} {ts us : List Token},
      Grammar.IsName t → Grammar.IsCall f ts c → f ≠ .bare → o.is (word "do") = true →
      Grammar.IsSequence us ss → e.is (word "end") = true → o'.is openBrace = true →
      e'.is closeBrace = true → ∀ a b : List Token,
        Step (a ++ (t :: ts ++ (o :: us ++ [e])) ++ b) (a ++ (t :: ts ++ (o' :: us ++ [e'])) ++ b) :=
  ⟨ofTokens_of_steps, fun h ht hk => Exchange.of_label h ht hk,
    fun ht hc hf ho hs he ho' he' a b => Step.of_block ht hc hf ho hs he ho' he' a b⟩

/-- `group do gem :a, k: %w[b] end` and `group { gem 'a', :k => ['b'] }` -/
theorem ofTokens_exchanged_block :
    ∃ ts us, scan "group do gem :a, k: %w[b] end".toList = .ok ts ∧
      scan "group \x7b gem 'a', :k => ['b'] \x7d".toList = .ok us ∧
      Relation.ReflTransGen Step ts us ∧
      ofTokens us = .ok [⟨"group", [], [],
        some [⟨"gem", [.str "a"], [("k", .list [.str "b"])], none, 1⟩], 1⟩] := by
  have hl : lexemes "group do gem :a, k: %w[b] end".toList =
      ([⟨.name, "group".toList⟩, ⟨.gap, " ".toList⟩, ⟨.name, "do".toList⟩, ⟨.gap, " ".toList⟩,
        ⟨.name, "gem".toList⟩, ⟨.gap, " ".toList⟩, ⟨.symbol, ":a".toList⟩, ⟨.punct, ",".toList⟩,
        ⟨.gap, " ".toList⟩, ⟨.label, "k:".toList⟩, ⟨.gap, " ".toList⟩, ⟨.words, "%w[b]".toList⟩,
        ⟨.gap, " ".toList⟩, ⟨.name, "end".toList⟩], []) := by
    rw [lexemes_eq_within (n := 40) (by decide)]
    decide +kernel
  have hm : lexemes "group \x7b gem 'a', :k => ['b'] \x7d".toList =
      ([⟨.name, "group".toList⟩, ⟨.gap, " ".toList⟩, ⟨.punct, "\x7b".toList⟩, ⟨.gap, " ".toList⟩,
        ⟨.name, "gem".toList⟩, ⟨.gap, " ".toList⟩, ⟨.string, "'a'".toList⟩, ⟨.punct, ",".toList⟩,
        ⟨.gap, " ".toList⟩, ⟨.symbol, ":k".toList⟩, ⟨.gap, " ".toList⟩, ⟨.arrow, "=>".toList⟩,
        ⟨.gap, " ".toList⟩, ⟨.punct, "[".toList⟩, ⟨.string, "'b'".toList⟩, ⟨.punct, "]".toList⟩,
        ⟨.gap, " ".toList⟩, ⟨.punct, "\x7d".toList⟩], []) := by
    rw [lexemes_eq_within (n := 40) (by decide)]
    decide +kernel
  -- the statements of the block, which are read on their own for the third part
  have hi : lexemes "gem 'a', :k => ['b']".toList =
      ([⟨.name, "gem".toList⟩, ⟨.gap, " ".toList⟩, ⟨.string, "'a'".toList⟩, ⟨.punct, ",".toList⟩,
        ⟨.gap, " ".toList⟩, ⟨.symbol, ":k".toList⟩, ⟨.gap, " ".toList⟩, ⟨.arrow, "=>".toList⟩,
        ⟨.gap, " ".toList⟩, ⟨.punct, "[".toList⟩, ⟨.string, "'b'".toList⟩, ⟨.punct, "]".toList⟩],
        []) := by
    rw [lexemes_eq_within (n := 40) (by decide)]
    decide +kernel
  have symbol : Exchange [⟨.symbol, ":a".toList, 1⟩] [⟨.string, "'a'".toList, 1⟩] :=
    .respelled (.symbol (s := "a") rfl rfl rfl rfl)
  have hs := scan_of_lexemes hl
  obtain ⟨same, ofLabel, ofBlock⟩ := ofTokens_exchanged
  have label : Exchange [⟨.label, "k:".toList, 1⟩]
      [⟨.symbol, ":k".toList, 1⟩, ⟨.arrow, "=>".toList, 1⟩] :=
    ofLabel (t := ⟨.label, "k:".toList, 1⟩) hs (by decide) rfl
  have text : IsText [⟨.string, "'b'".toList, 1⟩] (.str "b") := .mk rfl rfl
  have array : Bracketed IsText openList closeList
      [⟨.punct, "[".toList, 1⟩, ⟨.string, "'b'".toList, 1⟩, ⟨.punct, "]".toList, 1⟩] [.str "b"] :=
    .mk rfl newlines_nil (.last text newlines_nil) rfl
  have words : Exchange [⟨.words, "%w[b]".toList, 1⟩]
      [⟨.punct, "[".toList, 1⟩, ⟨.string, "'b'".toList, 1⟩, ⟨.punct, "]".toList, 1⟩] :=
    .respelled (.words rfl rfl array)
  have inner : IsSequence _ [⟨"gem", [.str "a"], [("k", .list [.str "b"])], none, 1⟩] :=
    IsProgram.sequence (e := endOfFile 1) (ofTokens_sound (scan_of_lexemes hi) rfl)
  have name : IsName ⟨.name, "group".toList, 1⟩ := ⟨rfl, by decide⟩
  have start : Token.is ⟨.name, "do".toList, 1⟩ (word "do") = true := by decide
  have stop : Token.is ⟨.name, "end".toList, 1⟩ (word "end") = true := by decide
  have brace : Token.is ⟨.punct, "\x7b".toList, 1⟩ openBrace = true := by decide
  have unbrace : Token.is ⟨.punct, "\x7d".toList, 1⟩ closeBrace = true := by decide
  have block := ofBlock name .absent (by decide) start inner stop brace unbrace [] [endOfFile 1]
  have steps := Relation.ReflTransGen.single block
    |>.head (.mk [⟨.name, "group".toList, 1⟩, ⟨.name, "do".toList, 1⟩, ⟨.name, "gem".toList, 1⟩,
      ⟨.string, "'a'".toList, 1⟩, ⟨.punct, ",".toList, 1⟩, ⟨.symbol, ":k".toList, 1⟩,
      ⟨.arrow, "=>".toList, 1⟩] [⟨.name, "end".toList, 1⟩, endOfFile 1] words)
    |>.head (.mk [_, _, _, _, _] [_, _, _] label)
    |>.head (.mk [_, _, _] [_, _, _, _, _] symbol)
  exact ⟨_, _, hs, scan_of_lexemes hm, steps, same steps rfl⟩

end Statement

end Gemfile
