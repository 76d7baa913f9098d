import Gemfile.Proofs.Cursor.Value
import Gemfile.Proofs.Joining

/-!
# Statements are read inside of the tokens

* `argument_agrees`, `bare_agrees`, `inBrackets_agrees`   the arguments of a statement
* `statementsAgree`         statements, and the loop of statements

A statement that fails or goes on for ever would do so in one of its parts, and each of these agrees
with what is read from the tokens left.
-/

namespace Gemfile.Cursor
open Token

section
variable {α : Type} {ts : List Token} (hr : Readable ts) {active : List Frame} {i k n : Nat}
  {o : Except SyntaxFault (Parsed α)}
include hr

/-! ## arguments -/

lemma ofTokens_agrees (hi : i < ts.length) (ha : Admits active ⟨.value, i⟩)
    (h : 2 * (ts.length - i) ≤ n) :
    Agrees ts (i + 1) ((value n).run ts active i) (Value.ofTokens (ts.drop i)) := by
  apply (valuesAgree hr n).value _ active i hi ha h
  rw [readers, List.length_drop]
  omega

lemma argument_agrees (c : Call) (hi : i < ts.length) (ha : Admits active ⟨.argument, i⟩)
    (h : 2 * (ts.length - i) ≤ n) :
    Agrees ts (i + 1) ((argument n c).run ts active i) (c.argument (ts.drop i)) := by
  obtain ⟨t, ht⟩ := exists_token hi
  rw [drop_eq_cons ht, Call.argument]
  apply agrees_call ha
  apply agrees_isAtKind ht
  by_cases hlabel : t.isKind .label = true
  · have hnext := hr.closed.next ht (by rw [(Grammar.isKind_iff _ _).mp hlabel]; decide)
    rw [if_pos hlabel, if_pos hlabel]
    apply agrees_take ht
    refine agrees_newlines hr.closed hnext (by omega) fun p hp hl e => ?_
    rw [← e]
    have hv := ha.later .value (j := p) (by omega)
    refine (ofTokens_agrees hr hl hv (by omega)).bind fun v q hq hql _ => ?_
    exact agrees_pure (by omega) hql
  · rw [if_neg hlabel, if_neg hlabel, ← drop_eq_cons ht]
    apply agrees_look ht
    have hv := ha.lower .value (by decide) (Nat.le_refl i)
    refine (ofTokens_agrees hr hi hv h).bind fun v p hp hl _ => ?_
    obtain ⟨u, hu⟩ := exists_token hl
    rw [drop_eq_cons hu]
    dsimp only
    apply agrees_isAtKind hu
    by_cases harrow : u.isKind .arrow = true
    · have hnext := hr.closed.next hu (by rw [(Grammar.isKind_iff _ _).mp harrow]; decide)
      rw [if_pos harrow, if_pos harrow]
      apply agrees_pass hu
      refine agrees_newlines hr.closed hnext (by omega) fun q hq hql e => ?_
      rw [← e]
      have hw := ha.later .value (j := q) (by omega)
      refine (ofTokens_agrees hr hql hw (by omega)).bind fun w x hx hxl _ => ?_
      refine agrees_key (List.mem_of_getElem? ht) fun s _ => ?_
      exact agrees_pure (by omega) hxl
    · rw [if_neg harrow, if_neg harrow, ← drop_eq_cons hu]
      refine .ite (fun _ => ?_) fun _ => ?_
      · exact agrees_pure hp hl
      · exact agrees_fault (List.mem_of_getElem? ht) _

lemma agrees_newlinesIn {b : Bool} (hi : i < ts.length) (hn : ts.length - i ≤ n)
    {f : Unit → Step α}
    (h : ∀ p, i ≤ p → p < ts.length →
      ts.drop p = (if b then skipNewlines (ts.drop i) else ts.drop i) →
      Agrees ts k ((f ()).run ts active p) o) :
    Agrees ts k ((newlinesIn b n >>= f).run ts active i) o := by
  cases b with
  | false => exact h i (Nat.le_refl i) hi rfl
  | true => exact agrees_newlines hr.closed hi hn h

lemma argumentsFrom_agrees {b : Bool} {m : Nat} (c : Call) (hi : i < ts.length)
    (ha : Admits active ⟨.argument, i⟩) (h : 2 * (ts.length - i) + 1 ≤ n)
    (h' : ts.length - i ≤ m) :
    Agrees ts (i + 1) ((argumentsFrom b n c).run ts active i)
      (Call.argumentsFrom b m c (ts.drop i)) := by
  induction n generalizing m c i with
  | zero => omega
  | succ n ih =>
    obtain ⟨m, rfl⟩ : ∃ m', m = m' + 1 := ⟨m - 1, by omega⟩
    rw [argumentsFrom, Call.argumentsFrom]
    apply agrees_here
    refine (argument_agrees hr c hi ha (by omega)).bind fun c' p hp hl _ => ?_
    dsimp only
    refine agrees_newlinesIn hr hl (by omega) fun q hq hql e => ?_
    rw [← e]
    refine agrees_more hr.closed (by omega) hql (by omega) (fun w hw hwl e' => ?_) ?_
    · rw [← e']
      exact (ih c' hwl (ha.mono (by omega)) (by omega) (by omega)).mono (by omega)
    · exact agrees_pure (by omega) hql

lemma bare_agrees (hi : i < ts.length) (ha : Admits active ⟨.arguments, i⟩)
    (h : 2 * (ts.length - i) + 1 ≤ n) :
    Agrees ts (i + 1) ((arguments n none).run ts active i) (Call.bare (ts.drop i)) := by
  have hv := ha.lower .argument (by decide) (Nat.le_refl i)
  have hlen : ts.length - i ≤ (ts.drop i).length + 1 := by
    rw [List.length_drop]
    omega
  refine agrees_call ha ((argumentsFrom_agrees hr Call.empty hi hv h hlen).bind ?_)
  intro c p hp hl _
  exact agrees_pure hp hl

lemma inBrackets_agrees (hi : i < ts.length) (ha : Admits active ⟨.arguments, i⟩)
    (h : 2 * (ts.length - i) + 1 ≤ n) :
    Agrees ts (i + 1) ((arguments n (some closeCall)).run ts active i)
      (Call.inBrackets (ts.drop i)) := by
  unfold Call.inBrackets
  dsimp only
  refine agrees_call ha (agrees_newlines hr.closed hi (by omega) fun p hp hl e => ?_)
  obtain ⟨t, ht⟩ := exists_token hl
  rw [← e, startsWith_drop ht]
  apply agrees_isAt ht
  refine .ite (fun hclose => ?_) fun _ => ?_
  · have hnext := hr.closed.next ht (by rw [Grammar.kind_of_is hclose]; decide)
    rw [List.drop_drop]
    exact agrees_pass ht (agrees_pure (by omega) hnext)
  · have hv := ha.lower .argument (by decide) hp
    have hlen : ts.length - p ≤ (ts.drop p).length + 1 := by
      rw [List.length_drop]
      omega
    unfold upTo
    simp only [Step.bind_assoc, Step.done_bind]
    refine (argumentsFrom_agrees hr Call.empty hl hv (by omega) hlen).bind fun c q hq hql _ => ?_
    refine agrees_want hr.closed (by decide) hql fun hnext => ?_
    exact agrees_pure (by omega) hnext

/-! ## statements -/

/-- what follows the arguments of a statement -/
lemma agrees_callOf (hi : i < ts.length) (ha : Admits active ⟨.arguments, i⟩)
    (h : 2 * (ts.length - i) + 1 ≤ n) {f : Call × Bool → Step α}
    {g : Call × Bool × List Token → Except SyntaxFault (Parsed α)}
    (hf : ∀ c b p, i ≤ p → p < ts.length →
      Agrees ts k ((f (c, b)).run ts active p) (g (c, b, ts.drop p))) :
    Agrees ts k ((callOf n >>= f).run ts active i) (Statement.callOf (ts.drop i) >>= g) := by
  obtain ⟨t, ht⟩ := exists_token hi
  unfold callOf Statement.callOf
  rw [drop_eq_cons ht, Step.bind_assoc]
  dsimp only
  apply agrees_isAt ht
  by_cases hopen : t.is openCall = true
  · have hnext := hr.closed.next ht (by rw [Grammar.kind_of_is hopen]; decide)
    rw [if_pos hopen, if_pos hopen]
    simp only [Step.bind_assoc, bind_assoc]
    apply agrees_pass ht
    refine (inBrackets_agrees hr hnext (ha.mono (by omega)) (by omega)).bind fun c p hp hl _ => ?_
    exact hf c true p (by omega) hl
  · rw [if_neg hopen, if_neg hopen, ← drop_eq_cons ht]
    unfold atArgument
    simp only [Step.bind_assoc]
    apply agrees_look ht
    rw [Step.done_bind]
    by_cases harg : Statement.startsArgument t = true
    · rw [if_pos harg, if_pos harg]
      simp only [Step.bind_assoc, bind_assoc]
      refine (bare_agrees hr hi ha h).bind fun c p hp hl _ => ?_
      exact hf c false p (by omega) hl
    · rw [if_neg harg, if_neg harg]
      exact hf Call.empty false i (Nat.le_refl i) hi

omit hr in
lemma agrees_blockEnd {t : Token} (ht : ts[i]? = some t) {c : Call} {b : Bool}
    {f : Option Mark → Step α}
    (h : Agrees ts k ((f (Statement.blockEnd? c b (ts.drop i))).run ts active i) o) :
    Agrees ts k ((blockEnd c b >>= f).run ts active i) o := by
  unfold Statement.blockEnd? at h
  rw [startsWith_drop ht, startsWith_drop ht] at h
  unfold blockEnd
  rw [Step.bind_assoc]
  apply agrees_isAt ht
  by_cases hdo : t.is (word "do") = true
  · rw [if_pos hdo] at h ⊢
    exact h
  · rw [if_neg hdo] at h ⊢
    rw [Step.bind_assoc]
    apply agrees_isAt ht
    by_cases hbrace : t.is openBrace = true
    · rw [hbrace, Bool.true_and] at h
      rw [if_pos hbrace]
      exact h
    · rw [Bool.eq_false_iff.mpr hbrace, Bool.false_and, if_neg Bool.false_ne_true] at h
      rw [if_neg hbrace]
      exact h

omit hr in
lemma agrees_isAtClosing {t : Token} (ht : ts[i]? = some t) (closing : Option Mark)
    {f : Bool → Step α} (h : Agrees ts k ((f (closing.any t.is)).run ts active i) o) :
    Agrees ts k ((isAtClosing closing >>= f).run ts active i) o := by
  cases closing with
  | none => exact h
  | some m => exact agrees_isAt ht m h

omit hr in
lemma agrees_isAtEnd {t : Token} (ht : ts[i]? = some t) (closing : Option Mark)
    {f : Bool → Step α}
    (h : Agrees ts k ((f (Statement.endsStatement closing t)).run ts active i) o) :
    Agrees ts k ((isAtEnd closing >>= f).run ts active i) o := by
  unfold Statement.endsStatement at h
  unfold isAtEnd
  rw [Step.bind_assoc]
  apply agrees_isAtKind ht
  cases hnl : t.isKind .newline with
  | true =>
    rw [hnl] at h
    exact h
  | false =>
    rw [if_neg Bool.false_ne_true, Step.bind_assoc]
    apply agrees_isAtKind ht
    cases heof : t.isKind .endOfFile with
    | true =>
      rw [hnl, heof] at h
      exact h
    | false =>
      rw [hnl, heof] at h
      rw [if_neg Bool.false_ne_true]
      exact agrees_isAtClosing ht closing h

end

/-- with enough calls and turns, the readers of statements agree with any number of readers that is
enough -/
structure StatementsAgree (ts : List Token) (n : Nat) : Prop where
  sequence : ∀ m closing active i, i < ts.length → Admits active ⟨.statement, i⟩ →
    2 * (ts.length - i) + 1 ≤ n → 2 * (ts.length - i) + 1 ≤ m →
    Agrees ts i ((sequence n closing).run ts active i)
      (Statement.sequenceFrom m closing (ts.drop i))
  statement : ∀ m active i, i < ts.length → Admits active ⟨.statement, i⟩ →
    2 * (ts.length - i) ≤ n → 2 * (ts.length - i) ≤ m →
    Agrees ts (i + 1) ((statement n).run ts active i) (Statement.statementFrom m (ts.drop i))

/-- the tokens left hold the end of the file -/
lemma Closed.ended {ts : List Token} (hc : Closed ts) {i : Nat} (hi : i < ts.length) :
    Ended (ts.drop i) := by
  obtain ⟨e, he, hk⟩ := hc
  refine ⟨e, List.mem_of_getLast? ?_, hk⟩
  rw [List.getLast?_drop, if_neg (by omega), he]

/-- the statements of a block are read up to the mark that closes it -/
lemma startsWith_of_sequenceFrom {m : Nat} {closing : Mark} {ts rest : List Token}
    {ss : List Statement} (he : Ended ts) (hm : 2 * ts.length + 1 ≤ m)
    (h : Statement.sequenceFrom m (some closing) ts = .ok (ss, rest)) :
    startsWith closing rest = true := by
  have halike := (Statement.statementsAlike id m).sequence m (some closing) ts he hm hm
  rw [h] at halike
  generalize Statement.sequenceFrom m (some closing) (ts.map (Token.relined id)) = o at halike
  cases halike with
  | ok htaken => exact htaken.closed closing rfl

section
variable {ts : List Token} (hr : Readable ts) {n : Nat} (hn : StatementsAgree ts n)
include hr hn

lemma sequence_agrees (m : Nat) (closing : Option Mark) (active : List Frame) (i : Nat)
    (hi : i < ts.length) (ha : Admits active ⟨.statement, i⟩)
    (h : 2 * (ts.length - i) + 1 ≤ n + 1) (h' : 2 * (ts.length - i) + 1 ≤ m) :
    Agrees ts i ((sequence (n + 1) closing).run ts active i)
      (Statement.sequenceFrom m closing (ts.drop i)) := by
  obtain ⟨m, rfl⟩ : ∃ m', m = m' + 1 := ⟨m - 1, by omega⟩
  rw [sequence, Statement.sequenceFrom]
  apply agrees_here
  refine agrees_newlines hr.closed hi (by omega) fun p hp hl e => ?_
  obtain ⟨t, ht⟩ := exists_token hl
  rw [← e, drop_eq_cons ht]
  dsimp only
  rw [← drop_eq_cons ht]
  apply agrees_isAtClosing ht
  refine .ite (fun _ => agrees_pure hp hl) fun _ => ?_
  apply agrees_isAtKind ht
  refine .ite (fun _ => ?_) fun _ => ?_
  · cases closing with
    | none => exact agrees_pure hp hl
    | some c => exact agrees_fail ht _
  · refine (hn.statement m active p hl (ha.mono hp) (by omega) (by omega)).bind
      fun s q hq hql _ => ?_
    obtain ⟨u, hu⟩ := exists_token hql
    rw [drop_eq_cons hu]
    dsimp only
    rw [← drop_eq_cons hu]
    apply agrees_isAtEnd hu
    refine .ite (fun _ => ?_) fun _ => ?_
    · apply agrees_turned (by omega)
      refine (hn.sequence m closing active q hql (ha.mono (by omega)) (by omega) (by omega)).bind
        fun ss x hx hxl _ => ?_
      exact agrees_pure (by omega) hxl
    · exact agrees_look hu (agrees_fail hu _)

lemma statement_agrees (m : Nat) (active : List Frame) (i : Nat) (hi : i < ts.length)
    (ha : Admits active ⟨.statement, i⟩) (h : 2 * (ts.length - i) ≤ n + 1)
    (h' : 2 * (ts.length - i) ≤ m) :
    Agrees ts (i + 1) ((statement (n + 1)).run ts active i)
      (Statement.statementFrom m (ts.drop i)) := by
  obtain ⟨m, rfl⟩ : ∃ m', m = m' + 1 := ⟨m - 1, by omega⟩
  obtain ⟨t, ht⟩ := exists_token hi
  rw [statement, drop_eq_cons ht, Statement.statementFrom]
  apply agrees_call ha
  apply agrees_look ht
  refine .ite (fun hname => ?_) fun _ => agrees_fail ht _
  have hname := (Grammar.startsStatement_iff t).mp hname
  have hnext := hr.closed.next ht (hname.kind_ne (by decide))
  apply agrees_pass ht
  have hcall := ha.later .arguments (Nat.lt_succ_self i)
  refine agrees_callOf hr hnext hcall (by omega) fun c b p hp hl => ?_
  obtain ⟨u, hu⟩ := exists_token hl
  dsimp only
  apply agrees_blockEnd hu
  cases hb : Statement.blockEnd? c b (ts.drop p) with
  | none => exact agrees_pure hp hl
  | some closing =>
    have hended := hr.closed.ended hl
    obtain ⟨hended', hlen, hk⟩ := Statement.blockEnd?_ended hb hended
    rw [List.drop_drop] at hended' hlen
    have hl' : p + 1 < ts.length := by
      have := hended'.length_pos
      rw [List.length_drop] at this
      omega
    dsimp only
    rw [List.drop_drop]
    apply agrees_pass hu
    -- the name of the statement has been passed, so statements may be read again
    have hseq := ha.later .statements (j := p + 1) (by omega)
    have hst := hseq.lower .statement (by decide) (Nat.le_refl _)
    refine (agrees_call hseq
      (hn.sequence m (some closing) _ (p + 1) hl' hst (by omega) (by omega))).bind
      fun body q hq hql e => ?_
    have hclose := startsWith_of_sequenceFrom hended' (by rw [List.length_drop]; omega) e
    obtain ⟨w, hw⟩ := exists_token hql
    rw [startsWith_drop hw] at hclose
    have hend := hr.closed.next hw (by rw [Grammar.kind_of_is hclose]; exact hk)
    dsimp only
    rw [List.drop_drop]
    exact agrees_pass hw (agrees_pure (by omega) hend)

omit hn in
theorem statementsAgree (n : Nat) : StatementsAgree ts n := by
  induction n with
  | zero =>
    constructor
    · intro m closing active i hi _ h
      omega
    · intro m active i hi _ h
      omega
  | succ n ih => exact ⟨sequence_agrees hr ih, statement_agrees hr ih⟩

end

end Gemfile.Cursor
