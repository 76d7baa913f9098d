import Gemfile.Proofs.Grammar.Call
import Gemfile.Proofs.Scan

/-!
# Files are read exactly as the grammar derives them

* `statementsSound`        the statements read are derived from the tokens taken
* `readsSequence`          what is derived is read up to the token that ends the sequence
* `ofTokens_iff_program`   scanned tokens are read as the statements that they derive, which are unique
-/

namespace Gemfile.Grammar
open Token Statement

/-! ## the ends of a sequence -/

lemma startsStatement_iff (t : Token) : startsStatement t = true ↔ IsName t := by
  simp [startsStatement, IsName, Token.isKind]

/-- the marks that may end a sequence; `none` is the end of the file -/
def Closing (closing : Option Mark) : Prop :=
  closing = none ∨ closing = some (word "end") ∨ closing = some closeBrace

/-- a token that ends a sequence -/
def Closes (closing : Option Mark) (t : Token) : Prop :=
  closing.any t.is = true ∨ closing = none ∧ t.kind = .endOfFile

lemma IsName.not_is {t : Token} (h : IsName t) {m : Mark} (hm : m.kind ≠ .name) :
    t.is m = false := not_is_of_kind (by rw [h.1]; exact hm.symm)

lemma IsName.not_word {t : Token} (h : IsName t) {s : String} (hs : s ∈ reserved) :
    t.is (word s) = false := by
  rw [Bool.eq_false_iff]
  intro hw
  apply h.2
  rw [Token.spelling, ((is_iff _ _).mp hw).2]
  simpa [word] using hs

lemma IsName.not_closing {t : Token} (h : IsName t) {closing : Option Mark}
    (hc : Closing closing) : closing.any t.is = false := by
  rcases hc with rfl | rfl | rfl
  · rfl
  · exact h.not_word (by decide)
  · exact h.not_is (by decide)

lemma IsName.kind_ne {t : Token} (h : IsName t) {k : Token.Kind} (hk : Token.Kind.name ≠ k) :
    t.kind ≠ k := by
  rw [h.1]
  exact hk

lemma Closes.endsStatement {closing : Option Mark} {t : Token} (h : Closes closing t) :
    endsStatement closing t = true := by
  rcases h with h | ⟨-, h⟩
  · simp [Statement.endsStatement, h]
  · simp [Statement.endsStatement, Token.isKind, h]

lemma Closes.not_newline {closing : Option Mark} {t : Token} (hc : Closing closing)
    (h : Closes closing t) : t.kind ≠ .newline := by
  rcases h with h | ⟨-, h⟩
  · rcases hc with rfl | rfl | rfl
    · simp at h
    · rw [kind_of_is (m := word "end") h]; decide
    · rw [kind_of_is (m := closeBrace) h]; decide
  · rw [h]; decide

lemma Closes.follows {closing : Option Mark} {t : Token} (hc : Closing closing)
    (h : Closes closing t) : Follows t := by
  rcases h with h | ⟨-, h⟩
  · rcases hc with rfl | rfl | rfl
    · simp at h
    · exact .inr (.inr (.inr (.inl h)))
    · exact .inr (.inr (.inr (.inr (.inr h))))
  · exact .inr (.inl h)

/-! ## the shape of a sequence -/

lemma IsStatement.head {ts : List Token} {s : Statement} (h : IsStatement ts s) :
    ∃ t us, ts = t :: us ∧ IsName t := by
  cases h with
  | plain ht _ => exact ⟨_, _, rfl, ht⟩
  | block ht _ _ _ _ => exact ⟨_, _, rfl, ht⟩
  | braces ht _ _ _ _ _ => exact ⟨_, _, rfl, ht⟩

/-- a statement in front of a sequence that begins with a newline, or is empty -/
lemma IsSequence.cons {nl us us' : List Token} {s : Statement} {ss : List Statement}
    (hn : Newlines nl) (hs : IsStatement us s) (h : IsSequence us' ss)
    (hb : ∀ t r, us' = t :: r → ¬ IsName t) : IsSequence (nl ++ us ++ us') (s :: ss) := by
  cases h with
  | empty hn' => exact .statements hn (.one hs) hn'
  | @statements nl' ts nl'' ss hn' hsep hn'' =>
    have hne : nl' ≠ [] := by
      rintro rfl
      obtain ⟨t, r, rfl, ht⟩ := hsep.head fun _ _ => IsStatement.head
      exact hb t _ rfl ht
    have := IsSequence.statements hn (.more hs ⟨hne, hn'⟩ hsep) hn''
    simpa using this

lemma IsSequence.newline {t : Token} {us : List Token} {ss : List Statement}
    (ht : t.kind = .newline) (h : IsSequence us ss) : IsSequence (t :: us) ss := by
  have hc : ∀ nl, Newlines nl → Newlines (t :: nl) := fun nl hn u hu =>
    (List.mem_cons.mp hu).elim (fun e => e ▸ ht) (hn u)
  cases h with
  | empty hn => exact .empty (hc _ hn)
  | statements hn hs hn' => exact .statements (hc _ hn) hs hn'

/-- induction on the derivations of statements and sequences, with the parts already put in their
place -/
theorem IsStatement.induct {P : List Token → Statement → Prop}
    {Q : List Token → List Statement → Prop}
    (plain : ∀ t f ts c, IsName t → IsCall f ts c →
      P (t :: ts) ⟨t.spelling, c.args, c.options, none, t.line⟩)
    (block : ∀ t o e f ts us c ss, IsName t → IsCall f ts c →
      (o.is (word "do") = true ∧ e.is (word "end") = true ∨
        f ≠ .bare ∧ o.is openBrace = true ∧ e.is closeBrace = true) → Q us ss →
      P (t :: ts ++ (o :: us ++ [e])) ⟨t.spelling, c.args, c.options, some ss, t.line⟩)
    (empty : ∀ nl, Newlines nl → Q nl [])
    (statements : ∀ nl ts nl' ss, Newlines nl → Separated P Break ts ss → Newlines nl' →
      Q (nl ++ ts ++ nl') ss) :
    ∀ ts ss, IsSequence ts ss → Q ts ss :=
  @IsSequence.rec (fun ts s _ => P ts s) (fun ts ss _ => Q ts ss)
    (fun ts ss _ => Separated P Break ts ss)
    (fun ht hc => plain _ _ _ _ ht hc)
    (fun ht hc ho _ he hq => block _ _ _ _ _ _ _ _ ht hc (.inl ⟨ho, he⟩) hq)
    (fun ht hc hf ho _ he hq => block _ _ _ _ _ _ _ _ ht hc (.inr ⟨hf, ho, he⟩) hq)
    (fun hn => empty _ hn) (fun hn _ hn' hs => statements _ _ _ _ hn hs hn')
    (fun _ hp => .one hp) (fun _ hs _ hp hr => .more hp hs hr)

/-! ## what is read is derived -/

lemma blockEnd?_sound {f : Form} {us : List Token} {c : Call} {b : Bool} (h : IsCall f us c)
    (hb : b = true ↔ f = .bracketed) {ts : List Token} {m : Mark}
    (he : blockEnd? c b ts = some m) :
    ∃ o r, ts = o :: r ∧ (o.is (word "do") = true ∧ m = word "end" ∨
      f ≠ .bare ∧ o.is openBrace = true ∧ m = closeBrace) := by
  have hb' : b = decide (f = .bracketed) := by
    cases b <;> simp_all
  cases ts with
  | nil => simp [blockEnd?, startsWith] at he
  | cons o r =>
    refine ⟨o, r, rfl, ?_⟩
    unfold blockEnd? at he
    split at he
    · next ho => exact .inl ⟨ho, (Option.some.inj he).symm⟩
    · rw [hb', braces_iff h] at he
      split at he
      · next ho =>
        obtain ⟨ho, hf⟩ := Bool.and_eq_true_iff.mp ho
        exact .inr ⟨of_decide_eq_true hf, ho, (Option.some.inj he).symm⟩
      · simp at he

/-- what `n` readers take is derived -/
structure StatementsSound (n : Nat) : Prop where
  sequence : ∀ closing ts ss rest, Closing closing → Spelled ts →
    sequenceFrom n closing ts = .ok (ss, rest) →
    ∃ us t r, IsSequence us ss ∧ rest = t :: r ∧ Closes closing t ∧ ts = us ++ t :: r
  statement : ∀ ts s rest, Spelled ts → statementFrom n ts = .ok (s, rest) →
    ∃ us, IsStatement us s ∧ ts = us ++ rest

section
variable {n : Nat} (hn : StatementsSound n)
include hn

lemma statementFrom_step (ts : List Token) (s : Statement) (rest : List Token) (hs : Spelled ts)
    (h : statementFrom (n + 1) ts = .ok (s, rest)) : ∃ us, IsStatement us s ∧ ts = us ++ rest := by
  cases ts with
  | nil => simp [statementFrom] at h
  | cons t ts =>
    rw [statementFrom] at h
    split at h
    · next ht =>
      have ht := (startsStatement_iff t).mp ht
      obtain ⟨⟨c, b, r⟩, hc, h⟩ := bind_eq_ok.mp h
      obtain ⟨f, us, hcall, e, hb⟩ := callOf_sound hs.of_cons hc
      dsimp only at h
      split at h
      · obtain ⟨rfl, rfl⟩ := Prod.mk.inj (Except.ok.inj h)
        exact ⟨t :: us, .plain ht hcall, by rw [e]; rfl⟩
      · next m hm =>
        obtain ⟨⟨body, r'⟩, hbody, h⟩ := bind_eq_ok.mp h
        obtain ⟨rfl, rfl⟩ := Prod.mk.inj (Except.ok.inj h)
        obtain ⟨o, r, rfl, ho⟩ := blockEnd?_sound hcall hb hm
        have hs' : Spelled r := by
          rw [e] at hs
          exact hs.of_cons.of_append.of_cons
        have hm' : Closing (some m) := by
          rcases ho with ⟨-, rfl⟩ | ⟨-, -, rfl⟩
          · exact .inr (.inl rfl)
          · exact .inr (.inr rfl)
        obtain ⟨us', w, r'', hseq, rfl, hw, e'⟩ := hn.sequence _ _ _ _ hm' hs' hbody
        have hw : w.is m = true := by simpa [Closes] using hw
        refine ⟨t :: us ++ (o :: us' ++ [w]), ?_, ?_⟩
        · rcases ho with ⟨ho, rfl⟩ | ⟨hf, ho, rfl⟩
          · exact .block ht hcall ho hseq hw
          · exact .braces ht hcall hf ho hseq hw
        · simp only [List.drop_one, List.tail_cons] at e' ⊢
          rw [e, e']
          simp
    · simp at h

lemma sequenceFrom_step (closing : Option Mark) (ts : List Token) (ss : List Statement)
    (rest : List Token) (hc : Closing closing) (hs : Spelled ts)
    (h : sequenceFrom (n + 1) closing ts = .ok (ss, rest)) :
    ∃ us t r, IsSequence us ss ∧ rest = t :: r ∧ Closes closing t ∧ ts = us ++ t :: r := by
  obtain ⟨nl, hts, hnl⟩ := skipNewlines_sound ts
  rw [sequenceFrom] at h
  split at h
  · simp at h
  · next t us hskip =>
    rw [hskip] at hts
    split at h
    · next hcl =>
      obtain ⟨rfl, rfl⟩ := Prod.mk.inj (Except.ok.inj h)
      exact ⟨nl, t, us, .empty hnl, rfl, .inl hcl, hts⟩
    · split at h
      · next hk =>
        cases closing with
        | none =>
          obtain ⟨rfl, rfl⟩ := Prod.mk.inj (Except.ok.inj h)
          exact ⟨nl, t, us, .empty hnl, rfl, .inr ⟨rfl, (isKind_iff _ _).mp hk⟩, hts⟩
        | some m => simp at h
      · obtain ⟨⟨s, r⟩, hst, h⟩ := bind_eq_ok.mp h
        have hs' : Spelled (t :: us) := by
          rw [hts] at hs
          exact hs.of_append
        obtain ⟨vs, hvs, e⟩ := hn.statement _ _ _ hs' hst
        cases r with
        | nil => simp at h
        | cons u r =>
          dsimp only at h
          split at h
          · next hu =>
            obtain ⟨⟨ss', r'⟩, hseq, h⟩ := bind_eq_ok.mp h
            obtain ⟨rfl, rfl⟩ := Prod.mk.inj (Except.ok.inj h)
            have hs'' : Spelled (u :: r) := by
              rw [e] at hs'
              exact hs'.of_append
            obtain ⟨us', w, r'', hseq', rfl, hw, e'⟩ := hn.sequence _ _ _ _ hc hs'' hseq
            refine ⟨nl ++ vs ++ us', w, r'', .cons hnl hvs hseq' ?_, rfl, hw, ?_⟩
            · -- the sequence goes on with the token that ended the statement, which is no name
              rintro x y rfl hx
              obtain ⟨rfl, -⟩ := List.cons.inj e'
              simp [Statement.endsStatement, Token.isKind, hx.1, hx.not_closing hc] at hu
            · rw [hts, e, e']
              simp
          · simp at h

end

theorem statementsSound (n : Nat) : StatementsSound n := by
  induction n with
  | zero =>
    constructor
    · intro closing ts ss rest _ _ h
      simp [sequenceFrom] at h
    · intro ts s rest _ h
      simp [statementFrom] at h
  | succ n ih => exact ⟨sequenceFrom_step ih, statementFrom_step ih⟩

/-! ## what is derived is read -/

/-- a token behind which a statement does not go on: no block opens there -/
def Stops (t : Token) : Prop := ∃ closing, Closing closing ∧ endsStatement closing t = true

lemma Stops.follows {t : Token} (h : Stops t) : Follows t := by
  obtain ⟨closing, hc, ht⟩ := h
  simp only [Statement.endsStatement, Bool.or_eq_true, isKind_iff] at ht
  rcases ht with (ht | ht) | ht
  · exact .inl ht
  · exact .inr (.inl ht)
  · exact Closes.follows hc (.inl ht)

lemma Stops.no_block {t : Token} (h : Stops t) (c : Call) (b : Bool) (ts : List Token) :
    blockEnd? c b (t :: ts) = none := by
  have hdo : t.is (word "do") = false ∧ t.is openBrace = false := by
    obtain ⟨closing, hc, ht⟩ := h
    simp only [Statement.endsStatement, Bool.or_eq_true, isKind_iff] at ht
    rcases ht with (ht | ht) | ht
    · exact ⟨not_is_of_kind (by rw [ht]; decide), not_is_of_kind (by rw [ht]; decide)⟩
    · exact ⟨not_is_of_kind (by rw [ht]; decide), not_is_of_kind (by rw [ht]; decide)⟩
    · rcases hc with rfl | rfl | rfl
      · simp at ht
      · exact ⟨not_is_of_is (m := word "end") ht (by decide),
          not_is_of_is (m := word "end") ht (by decide)⟩
      · exact ⟨not_is_of_is (m := closeBrace) ht (by decide),
          not_is_of_is (m := closeBrace) ht (by decide)⟩
  simp [blockEnd?, startsWith, hdo]

/-- enough readers read `s` from `ts` where a statement may end -/
structure ReadsStatement (ts : List Token) (s : Statement) : Prop where
  head : ∃ t us, ts = t :: us ∧ IsName t
  read : ∀ n u rest, Stops u → 2 * ts.length ≤ n →
    statementFrom n (ts ++ u :: rest) = .ok (s, u :: rest)

/-- enough readers read `ss` from `ts` up to a token that ends the sequence -/
def ReadsSequence (ts : List Token) (ss : List Statement) : Prop :=
  ∀ n closing u rest, Closing closing → Closes closing u → 2 * ts.length + 1 ≤ n →
    sequenceFrom n closing (ts ++ u :: rest) = .ok (ss, u :: rest)

lemma readsStatement_plain (t : Token) (f : Form) (ts : List Token) (c : Call) (ht : IsName t)
    (hc : IsCall f ts c) :
    ReadsStatement (t :: ts) ⟨t.spelling, c.args, c.options, none, t.line⟩ := by
  refine ⟨⟨t, ts, rfl, ht⟩, fun n u rest hu hn => ?_⟩
  rw [List.length_cons] at hn
  obtain ⟨m, rfl⟩ : ∃ m, n = m + 1 := ⟨n - 1, by omega⟩
  rw [List.cons_append, statementFrom, if_pos ((startsStatement_iff t).mpr ht),
    callOf_complete hc hu.follows, ok_bind]
  dsimp only
  rw [hu.no_block]
  rfl

lemma readsStatement_block (t o e : Token) (f : Form) (ts us : List Token) (c : Call)
    (ss : List Statement) (ht : IsName t) (hc : IsCall f ts c)
    (hoe : o.is (word "do") = true ∧ e.is (word "end") = true ∨
      f ≠ .bare ∧ o.is openBrace = true ∧ e.is closeBrace = true) (hq : ReadsSequence us ss) :
    ReadsStatement (t :: ts ++ (o :: us ++ [e]))
      ⟨t.spelling, c.args, c.options, some ss, t.line⟩ := by
  refine ⟨⟨t, _, rfl, ht⟩, fun n u rest hu hn => ?_⟩
  simp only [List.length_append, List.length_cons, List.length_nil] at hn
  obtain ⟨m, rfl⟩ : ∃ m, n = m + 1 := ⟨n - 1, by omega⟩
  have ho : Follows o := by
    rcases hoe with ⟨ho, -⟩ | ⟨-, ho, -⟩
    · exact .inr (.inr (.inl ho))
    · exact .inr (.inr (.inr (.inr (.inl ho))))
  have hend : ∃ k, blockEnd? c (decide (f = .bracketed)) (o :: (us ++ e :: u :: rest)) = some k ∧
      Closing (some k) ∧ e.is k = true := by
    rcases hoe with ⟨ho, he⟩ | ⟨hf, ho, he⟩
    · exact ⟨word "end", by simp [blockEnd?, startsWith, ho], .inr (.inl rfl), he⟩
    · refine ⟨closeBrace, ?_, .inr (.inr rfl), he⟩
      have hdo : o.is (word "do") = false := not_is_of_is ho (by decide)
      simp [blockEnd?, startsWith, hdo, ho, braces_iff hc, hf]
  obtain ⟨k, hk, hclosing, he⟩ := hend
  have hbody := hq m (some k) e (u :: rest) hclosing (.inl he) (by omega)
  have heq : t :: ts ++ (o :: us ++ [e]) ++ u :: rest
      = t :: (ts ++ o :: (us ++ e :: u :: rest)) := by simp
  rw [heq, statementFrom, if_pos ((startsStatement_iff t).mpr ht), callOf_complete hc ho, ok_bind]
  dsimp only
  rw [hk]
  dsimp only
  rw [List.drop_one, List.tail_cons, hbody]
  rfl

lemma readsSequence_empty (nl : List Token) (hn : Newlines nl) : ReadsSequence nl [] := by
  intro n closing u rest hc hu hle
  obtain ⟨m, rfl⟩ : ∃ m, n = m + 1 := ⟨n - 1, by omega⟩
  rw [sequenceFrom, skipNewlines_to hn (hu.not_newline hc)]
  dsimp only
  rcases hu with hu | ⟨rfl, hu⟩
  · rw [if_pos hu]
  · simp [Token.isKind, hu]

/-- behind a statement, if a token follows that may, a sequence is read as it is by itself -/
lemma sequenceFrom_cons_eq {nl ts : List Token} {s : Statement} (hn : Newlines nl)
    (hs : ReadsStatement ts s) {closing : Option Mark} (hc : Closing closing) {u : Token}
    (hu : endsStatement closing u = true) {m : Nat} (hm : 2 * ts.length ≤ m) (us : List Token) :
    sequenceFrom (m + 1) closing (nl ++ (ts ++ u :: us)) =
      (sequenceFrom m closing (u :: us)).map fun p => (s :: p.1, p.2) := by
  have hread := hs.read m u us ⟨closing, hc, hu⟩ hm
  obtain ⟨t, ts, rfl, ht⟩ := hs.head
  have hk : t.isKind .endOfFile = false := by
    simpa [Token.isKind] using ht.kind_ne (k := .endOfFile) (by decide)
  rw [List.cons_append] at hread ⊢
  rw [sequenceFrom, skipNewlines_to hn (ht.kind_ne (by decide))]
  dsimp only
  rw [ht.not_closing hc, if_neg Bool.false_ne_true, hk, if_neg Bool.false_ne_true, hread, ok_bind]
  dsimp only
  rw [if_pos hu]
  cases sequenceFrom m closing (u :: us) <;> rfl

lemma sequenceFrom_cons {nl ts : List Token} {s : Statement} (hn : Newlines nl)
    (hs : ReadsStatement ts s) {closing : Option Mark} (hc : Closing closing) {u : Token}
    (hu : endsStatement closing u = true) {m : Nat} (hm : 2 * ts.length ≤ m) {us : List Token}
    {ss : List Statement} {rest : List Token}
    (hrest : sequenceFrom m closing (u :: us) = .ok (ss, rest)) :
    sequenceFrom (m + 1) closing (nl ++ (ts ++ u :: us)) = .ok (s :: ss, rest) := by
  rw [sequenceFrom_cons_eq hn hs hc hu hm, hrest]
  rfl

lemma readsSequence_statements (nl ts nl' : List Token) (ss : List Statement) (hn : Newlines nl)
    (hs : Separated ReadsStatement Break ts ss) (hn' : Newlines nl') :
    ReadsSequence (nl ++ ts ++ nl') ss := by
  induction hs generalizing nl with
  | @one ts s hs =>
    intro n closing u rest hc hu hle
    simp only [List.length_append] at hle
    obtain ⟨m, rfl⟩ : ∃ m, n = m + 1 := ⟨n - 1, by omega⟩
    obtain ⟨t, us, rfl, -⟩ := id hs.head
    rw [List.length_cons] at hle
    have hrest := readsSequence_empty nl' hn' m closing u rest hc hu (by omega)
    rw [List.append_assoc, List.append_assoc]
    cases nl' with
    | nil => exact sequenceFrom_cons hn hs hc hu.endsStatement (by simp; omega) hrest
    | cons w nl' =>
      have hw : endsStatement closing w = true := by
        simp [Statement.endsStatement, Token.isKind, hn' w (by simp)]
      exact sequenceFrom_cons hn hs hc hw (by simp; omega) hrest
  | @more ts br us s ss hs hbr hsep ih =>
    intro n closing u rest hc hu hle
    simp only [List.length_append] at hle
    obtain ⟨m, rfl⟩ : ∃ m, n = m + 1 := ⟨n - 1, by omega⟩
    obtain ⟨t, ts', rfl, -⟩ := id hs.head
    rw [List.length_cons] at hle
    have hrest := ih br hbr.2 m closing u rest hc hu
      (by simp only [List.length_append]; omega)
    obtain ⟨w, br, rfl⟩ := List.exists_cons_of_ne_nil hbr.1
    have hw : endsStatement closing w = true := by
      simp [Statement.endsStatement, Token.isKind, hbr.2 w (by simp)]
    have heq : nl ++ (t :: ts' ++ w :: br ++ us) ++ nl' ++ u :: rest
        = nl ++ (t :: ts' ++ w :: (br ++ us ++ nl' ++ u :: rest)) := by simp
    rw [heq]
    exact sequenceFrom_cons hn hs hc hw (by simp; omega) hrest

theorem readsSequence {ts : List Token} {ss : List Statement} (h : IsSequence ts ss) :
    ReadsSequence ts ss :=
  IsStatement.induct readsStatement_plain readsStatement_block readsSequence_empty
    readsSequence_statements ts ss h

theorem readsStatement {ts : List Token} {s : Statement} (h : IsStatement ts s) :
    ReadsStatement ts s := by
  cases h with
  | plain ht hc => exact readsStatement_plain _ _ _ _ ht hc
  | block ht hc ho hq he =>
    exact readsStatement_block _ _ _ _ _ _ _ _ ht hc (.inl ⟨ho, he⟩) (readsSequence hq)
  | braces ht hc hf ho hq he =>
    exact readsStatement_block _ _ _ _ _ _ _ _ ht hc (.inr ⟨hf, ho, he⟩) (readsSequence hq)

/-! ## whole files -/

theorem ofTokens_complete {ts : List Token} {ss : List Statement} (h : IsProgram ts ss) :
    ofTokens ts = .ok ss := by
  obtain @⟨e, ts, ss, hs, he⟩ := h
  have hread := readsSequence hs (readers (ts ++ [e])) none e [] (.inl rfl) (.inr ⟨rfl, he⟩)
    (by rw [readers, List.length_append]; omega)
  rw [ofTokens, hread]
  rfl

lemma split_at_end {body us r : List Token} {e t : Token} (h : body ++ [e] = us ++ t :: r)
    (hb : ∀ t ∈ body, t.kind ≠ .endOfFile) (ht : t.kind = .endOfFile) : r = [] := by
  rcases List.eq_nil_or_concat r with rfl | ⟨r, x, rfl⟩
  · rfl
  · exfalso
    have heq : body ++ [e] = (us ++ t :: r) ++ [x] := by simpa using h
    have hbody := (List.append_inj' heq rfl).1
    exact hb t (by rw [hbody]; simp) ht

lemma IsProgram.sequence {ts : List Token} {e : Token} {ss : List Statement}
    (h : IsProgram (ts ++ [e]) ss) : IsSequence ts ss := by
  generalize heq : ts ++ [e] = us at h
  cases h with
  | mk hs _ =>
    obtain ⟨rfl, -⟩ := List.append_inj' heq rfl
    exact hs

theorem ofTokens_sound {cs : List Char} {ts : List Token} (h : scan cs = .ok ts)
    {ss : List Statement} (hp : ofTokens ts = .ok ss) : IsProgram ts ss := by
  have hs : Spelled ts := fun t ht hk => (is_iff _ _).mpr ⟨hk, scan_arrow h t ht hk⟩
  obtain ⟨body, e, hts, -, hbody⟩ := scan_endOfFile h
  unfold ofTokens at hp
  cases hq : sequenceFrom (readers ts) none ts with
  | error f =>
    rw [hq] at hp
    simp [Except.map] at hp
  | ok p =>
    rw [hq] at hp
    obtain rfl := Except.ok.inj hp
    obtain ⟨us, t, r, hseq, -, ht, heq⟩ :=
      (statementsSound _).sequence none ts p.1 p.2 (.inl rfl) hs hq
    have hk : t.kind = .endOfFile := by simpa [Closes] using ht
    have hr := split_at_end (hts.symm.trans heq) hbody hk
    rw [heq, hr]
    exact .mk hseq hk

/-- **Scanned tokens are read as `ss` exactly if they derive `ss`**, and they derive no more than one
row of statements. -/
theorem ofTokens_iff_program {cs : List Char} {ts : List Token} (h : scan cs = .ok ts) :
    (∀ ss, ofTokens ts = .ok ss ↔ IsProgram ts ss) ∧
      ∀ ss ss', IsProgram ts ss → IsProgram ts ss' → ss = ss' := by
  refine ⟨fun ss => ⟨ofTokens_sound h, ofTokens_complete⟩, fun ss ss' hp hp' => ?_⟩
  have e : Except.ok ss = Except.ok ss' := (ofTokens_complete hp).symm.trans (ofTokens_complete hp')
  exact Except.ok.inj e

/-- a hash that comes last is the options, and the braces behind the brackets are a block -/
theorem ofTokens_iff_program_trailing :
    ∃ ts, scan "gem('x', \x7bk: 1\x7d) \x7b\x7d".toList = .ok ts ∧
      IsProgram ts [⟨"gem", [.str "x"], [("k", .int 1)], some [], 1⟩] ∧
      ∀ ss, IsProgram ts ss → ss = [⟨"gem", [.str "x"], [("k", .int 1)], some [], 1⟩] := by
  have hl : lexemes "gem('x', \x7bk: 1\x7d) \x7b\x7d".toList =
      ([⟨.name, "gem".toList⟩, ⟨.punct, "(".toList⟩, ⟨.string, "'x'".toList⟩,
        ⟨.punct, ",".toList⟩, ⟨.gap, " ".toList⟩, ⟨.punct, "\x7b".toList⟩, ⟨.label, "k:".toList⟩,
        ⟨.gap, " ".toList⟩, ⟨.number, "1".toList⟩, ⟨.punct, "\x7d".toList⟩,
        ⟨.punct, ")".toList⟩, ⟨.gap, " ".toList⟩, ⟨.punct, "\x7b".toList⟩,
        ⟨.punct, "\x7d".toList⟩], []) := by
    rw [lexemes_eq_within (n := 20) (by decide)]
    decide +kernel
  have h := scan_of_lexemes hl
  obtain ⟨hiff, hunique⟩ := ofTokens_iff_program h
  have hp := (hiff [⟨"gem", [.str "x"], [("k", .int 1)], some [], 1⟩]).mp rfl
  exact ⟨_, h, hp, fun ss hss => hunique ss _ hss hp⟩

end Gemfile.Grammar
