import Gemfile.Proofs.Grammar.Value

/-!
# Arguments are read exactly as the grammar derives them

* `callOf_iff`            taking arguments one by one and settling the call gives the call that they
                          make up
* `argumentsFrom_sound`, `argumentsFrom_complete`   arguments with commas between them
* `callOf_sound`, `callOf_complete`                 the arguments of a statement

An arrow behind a value is told by its kind alone; that it is spelled as an arrow is known of scanned
tokens (`Spelled`).
-/

namespace Gemfile.Grammar
open Token

/-! ## calls put together argument by argument -/

/-- one more argument; a positional one has no place behind a keyword one -/
def add? (c : Call) : Argument → Option Call
  | .positional v => if c.options.isEmpty then some (c.withArg v) else none
  | .keyword e => some (c.withOption e.1 e.2)

def addAll? (c : Call) : List Argument → Option Call
  | [] => some c
  | a :: as => (add? c a).bind (addAll? · as)

lemma addAll?_cons (c : Call) (a : Argument) (as : List Argument) :
    addAll? c (a :: as) = (add? c a).bind (addAll? · as) := rfl

lemma put_ne_nil (k : String) (v : Value) (t : Options) : Table.put k v t ≠ [] := by
  cases t with
  | nil => simp [Table.put]
  | cons e t =>
    rw [Table.put]
    split <;> simp

lemma putAll_ne_nil {t : Options} (h : t ≠ []) (es : Options) : Table.putAll t es ≠ [] := by
  induction es generalizing t with
  | nil => exact h
  | cons e es ih => exact ih (put_ne_nil e.1 e.2 t)

lemma putAll_eq_nil {es : Options} (h : Table.putAll [] es = []) : es = [] := by
  cases es with
  | nil => rfl
  | cons e es => exact absurd h (putAll_ne_nil (put_ne_nil e.1 e.2 []) es)

/-- behind an option, only options are taken -/
lemma addAll?_options {c c' : Call} (hc : c.options ≠ []) {as : List Argument} :
    addAll? c as = some c' ↔
      ∃ es, as = es.map .keyword ∧ c' = ⟨c.args, Table.putAll c.options es⟩ := by
  induction as generalizing c with
  | nil =>
    constructor
    · intro h
      obtain rfl := Option.some.inj h
      exact ⟨[], rfl, rfl⟩
    · rintro ⟨es, he, rfl⟩
      obtain rfl := List.map_eq_nil_iff.mp he.symm
      rfl
  | cons a as ih =>
    rw [addAll?_cons]
    cases a with
    | positional v =>
      have hne : c.options.isEmpty = false := by simpa [List.isEmpty_iff] using hc
      simp only [add?, hne, Bool.false_eq_true, if_false, Option.bind_none]
      constructor
      · simp
      · rintro ⟨es, he, -⟩
        cases es <;> simp at he
    | keyword e =>
      rw [add?, Option.bind_some, ih (put_ne_nil e.1 e.2 c.options)]
      constructor
      · rintro ⟨es, rfl, rfl⟩
        exact ⟨e :: es, rfl, rfl⟩
      · rintro ⟨es, he, rfl⟩
        cases es with
        | nil => simp at he
        | cons e' es =>
          obtain ⟨h1, h2⟩ := List.cons.inj he
          obtain rfl := Argument.keyword.inj h1
          exact ⟨es, h2, rfl⟩

lemma addAll?_iff {args : List Value} {as : List Argument} {c : Call} :
    addAll? ⟨args, []⟩ as = some c ↔
      ∃ vs es, as = vs.map .positional ++ es.map .keyword ∧
        c = ⟨args ++ vs, Table.putAll [] es⟩ := by
  induction as generalizing args with
  | nil =>
    constructor
    · intro h
      obtain rfl := Option.some.inj h
      exact ⟨[], [], rfl, by rw [List.append_nil]; rfl⟩
    · rintro ⟨vs, es, he, rfl⟩
      obtain ⟨h1, h2⟩ := List.append_eq_nil_iff.mp he.symm
      obtain rfl := List.map_eq_nil_iff.mp h1
      obtain rfl := List.map_eq_nil_iff.mp h2
      rw [List.append_nil]
      rfl
  | cons a as ih =>
    rw [addAll?_cons]
    cases a with
    | positional v =>
      show addAll? ⟨args ++ [v], []⟩ as = some c ↔ _
      rw [ih]
      constructor
      · rintro ⟨vs, es, rfl, rfl⟩
        exact ⟨v :: vs, es, rfl, by simp⟩
      · rintro ⟨vs, es, he, rfl⟩
        cases vs with
        | nil => cases es <;> simp at he
        | cons w vs =>
          obtain ⟨h1, h2⟩ := List.cons.inj he
          obtain rfl := Argument.positional.inj h1
          exact ⟨vs, es, h2, by simp⟩
    | keyword e =>
      show addAll? ⟨args, Table.put e.1 e.2 []⟩ as = some c ↔ _
      rw [addAll?_options (put_ne_nil e.1 e.2 [])]
      constructor
      · rintro ⟨es, rfl, rfl⟩
        exact ⟨[], e :: es, rfl, by rw [List.append_nil]; rfl⟩
      · rintro ⟨vs, es, he, rfl⟩
        cases vs with
        | cons w vs => simp at he
        | nil =>
          cases es with
          | nil => simp at he
          | cons e' es =>
            obtain ⟨h1, h2⟩ := List.cons.inj he
            obtain rfl := Argument.keyword.inj h1
            exact ⟨es, h2, by rw [List.append_nil]; rfl⟩

lemma settle_of_options {c : Call} (h : c.options ≠ []) : c.settle = c := by
  unfold Call.settle
  split
  · next h' _ => exact absurd h' h
  · rfl

lemma settle_of_last {vs : List Value} (h : ∀ e, vs.getLast? ≠ some (.hash e)) :
    Call.settle ⟨vs, []⟩ = ⟨vs, []⟩ := by
  unfold Call.settle
  split
  · next e _ h' => exact absurd h' (h e)
  · rfl

lemma settle_hash (vs : List Value) (h : Options) :
    Call.settle ⟨vs ++ [.hash h], []⟩ = ⟨vs, h⟩ := by
  simp [Call.settle]

theorem callOf_iff {as : List Argument} {c : Call} :
    CallOf as c ↔ ∃ c', addAll? Call.empty as = some c' ∧ c'.settle = c := by
  constructor
  · intro h
    cases h with
    | @plain vs es hlast =>
      refine ⟨⟨vs, Table.putAll [] es⟩, addAll?_iff.mpr ⟨vs, es, rfl, rfl⟩, ?_⟩
      cases es with
      | nil => exact settle_of_last (hlast rfl)
      | cons e es => exact settle_of_options (putAll_ne_nil (put_ne_nil e.1 e.2 []) es)
    | @trailingHash vs h =>
      refine ⟨⟨vs ++ [.hash h], []⟩, addAll?_iff.mpr ⟨vs ++ [.hash h], [], ?_, rfl⟩, ?_⟩
      · simp
      · exact settle_hash vs h
  · rintro ⟨c', h, rfl⟩
    obtain ⟨vs, es, rfl, rfl⟩ := addAll?_iff.mp h
    rw [List.nil_append]
    cases es with
    | cons e es =>
      rw [settle_of_options (putAll_ne_nil (put_ne_nil e.1 e.2 []) es)]
      exact .plain (by simp)
    | nil =>
      by_cases hl : ∃ e, vs.getLast? = some (.hash e)
      · obtain ⟨e, he⟩ := hl
        obtain ⟨ws, rfl⟩ := List.getLast?_eq_some_iff.mp he
        rw [show Table.putAll [] ([] : Options) = [] from rfl, settle_hash]
        have := @CallOf.trailingHash ws e
        simpa using this
      · have hl' : ∀ e, vs.getLast? ≠ some (.hash e) := fun e he => hl ⟨e, he⟩
        rw [show Table.putAll [] ([] : Options) = [] from rfl, settle_of_last hl']
        exact @CallOf.plain vs [] fun _ => hl'

/-! ## one argument -/

def Spelled (ts : List Token) : Prop := ∀ t ∈ ts, t.kind = .arrow → t.is arrowSign = true

lemma Spelled.of_append {ts us : List Token} (h : Spelled (ts ++ us)) : Spelled us :=
  fun t ht => h t (List.mem_append_right ts ht)

lemma Spelled.of_cons {t : Token} {ts : List Token} (h : Spelled (t :: ts)) : Spelled ts :=
  fun u hu => h u (List.mem_cons_of_mem t hu)

lemma argument_sound {c c' : Call} {ts rest : List Token} (hs : Spelled ts)
    (h : c.argument ts = .ok (c', rest)) :
    ∃ us a, IsArgument us a ∧ ts = us ++ rest ∧ add? c a = some c' := by
  cases ts with
  | nil => simp [Call.argument] at h
  | cons t ts =>
    rw [Call.argument] at h
    split at h
    · next ht =>
      obtain ⟨⟨v, r⟩, hv, h⟩ := bind_eq_ok.mp h
      obtain ⟨rfl, rfl⟩ := Prod.mk.inj (Except.ok.inj h)
      obtain ⟨nl, hts, hnl⟩ := skipNewlines_sound ts
      obtain ⟨us, hus, e⟩ := value_sound hv
      refine ⟨t :: (nl ++ us), _, .pair (.label ((isKind_iff _ _).mp ht) hnl hus), ?_, rfl⟩
      rw [hts, e]
      simp
    · obtain ⟨⟨v, r⟩, hv, h⟩ := bind_eq_ok.mp h
      obtain ⟨us, hus, e⟩ := value_sound hv
      cases r with
      | nil => simp at h
      | cons u r =>
        dsimp only at h
        split at h
        · next hu =>
          obtain ⟨⟨w, r'⟩, hw, h⟩ := bind_eq_ok.mp h
          obtain ⟨k, hk, h⟩ := bind_eq_ok.mp h
          obtain ⟨rfl, rfl⟩ := Prod.mk.inj (Except.ok.inj h)
          obtain rfl := keyOf_sound hk
          obtain ⟨nl, hr, hnl⟩ := skipNewlines_sound r
          obtain ⟨us', hus', e'⟩ := value_sound hw
          have hsp : u.is arrowSign = true :=
            hs u (by rw [e]; simp) ((isKind_iff _ _).mp hu)
          refine ⟨us ++ u :: (nl ++ us'), _, .pair (.arrow hus hsp hnl hus'), ?_, rfl⟩
          rw [e, hr, e']
          simp
        · split at h
          · next hc =>
            obtain ⟨rfl, rfl⟩ := Prod.mk.inj (Except.ok.inj h)
            refine ⟨us, .positional v, .value hus, e, ?_⟩
            rw [add?, if_pos hc]
          · simp at h

lemma IsArgument.head {ts : List Token} {a : Argument} (h : IsArgument ts a) :
    ∃ t us, ts = t :: us ∧ Begins t := by
  cases h with
  | value hv =>
    obtain ⟨t, us, e, ht⟩ := (reads_iff.1 _ _ hv).opens
    exact ⟨t, us, e, .inr ht⟩
  | pair he => exact (reads_iff.2 _ _ he).opens

lemma not_label_of_opens {t : Token} (h : Opens t) : t.isKind .label = false := by
  rw [Bool.eq_false_iff]
  exact fun h' => h.kind_ne (by decide) ((isKind_iff _ _).mp h')

lemma argument_complete {c c' : Call} {ts : List Token} {a : Argument} (h : IsArgument ts a)
    (ha : add? c a = some c') {u : Token} (hu : u.kind ≠ .arrow) (rest : List Token) :
    c.argument (ts ++ u :: rest) = .ok (c', u :: rest) := by
  cases h with
  | @value v hv =>
    have hr := value_complete hv (u :: rest)
    obtain ⟨t, us, rfl, ht⟩ := (reads_iff.1 _ _ hv).opens
    have hu' : u.isKind .arrow = false := by simpa [Token.isKind] using hu
    rw [List.cons_append] at hr ⊢
    rw [Call.argument, not_label_of_opens ht, if_neg Bool.false_ne_true, hr, ok_bind]
    dsimp only
    rw [hu', if_neg Bool.false_ne_true]
    rw [add?] at ha
    split at ha
    · next hc =>
      obtain rfl := Option.some.inj ha
      rw [if_pos hc]
      rfl
    · simp at ha
  | pair he =>
    obtain rfl := Option.some.inj ha
    cases he with
    | @label t nl ts v ht hn hv =>
      have hr := value_complete hv (u :: rest)
      rw [List.cons_append, Call.argument, if_pos ((isKind_iff _ _).mpr ht), List.append_assoc,
        (reads_iff.1 _ _ hv).skip hn, hr, ok_bind]
      rfl
    | @arrow u' ks nl ts k v hk hu' hn hv =>
      have hr := value_complete hv (u :: rest)
      have hr' := value_complete hk (u' :: (nl ++ (ts ++ u :: rest)))
      obtain ⟨t, us, rfl, ht⟩ := (reads_iff.1 _ _ hk).opens
      have e : t :: us ++ u' :: (nl ++ ts) ++ u :: rest
          = t :: (us ++ u' :: (nl ++ (ts ++ u :: rest))) := by simp
      rw [List.cons_append] at hr'
      rw [e, Call.argument, not_label_of_opens ht, if_neg Bool.false_ne_true, hr', ok_bind]
      dsimp only
      have hu'' : u'.isKind .arrow = true := (isKind_iff _ _).mpr (kind_of_is hu')
      rw [if_pos hu'', (reads_iff.1 _ _ hv).skip hn, hr,
        ok_bind]
      rfl

/-! ## arguments with commas between them -/

lemma argumentsFrom_sound {b : Bool} {n : Nat} {c c' : Call} {ts rest : List Token}
    (hs : Spelled ts) (h : Call.argumentsFrom b n c ts = .ok (c', rest)) :
    ∃ us nl as, Separated IsArgument (Comma b) us as ∧ Newlines nl ∧ (b = false → nl = []) ∧
      ts = us ++ nl ++ rest ∧ addAll? c as = some c' := by
  induction n generalizing c ts with
  | zero => simp [Call.argumentsFrom] at h
  | succ n ih =>
    rw [Call.argumentsFrom] at h
    obtain ⟨⟨c1, r⟩, ha, h⟩ := bind_eq_ok.mp h
    obtain ⟨us, a, hus, e, hadd⟩ := argument_sound hs ha
    change (if startsWith comma (passNewlines b r) then
      Call.argumentsFrom b n c1 (skipNewlines ((passNewlines b r).drop 1))
      else .ok (c1, passNewlines b r)) = .ok (c', rest) at h
    split at h
    · next hc =>
      obtain ⟨ss, hss, e'⟩ := comma_sound hc
      have hs' : Spelled (skipNewlines ((passNewlines b r).drop 1)) := by
        rw [e, e'] at hs
        exact hs.of_append.of_append
      obtain ⟨us', nl, as, hsep, hnl, hb, e'', hall⟩ := ih hs' h
      refine ⟨us ++ ss ++ us', nl, a :: as, .more hus hss hsep, hnl, hb, ?_, ?_⟩
      · rw [e, e', e'']
        simp
      · rw [addAll?_cons, hadd]
        exact hall
    · obtain ⟨rfl, rfl⟩ := Prod.mk.inj (Except.ok.inj h)
      obtain ⟨nl, hr, hnl, hb⟩ := passNewlines_sound b r
      refine ⟨us, nl, [a], .one hus, hnl, hb, ?_, ?_⟩
      · rw [e, List.append_assoc, ← hr]
      · rw [addAll?_cons, hadd]
        rfl

lemma argumentsFrom_complete {b : Bool} {us : List Token} {as : List Argument}
    (h : Separated IsArgument (Comma b) us as) {c' : Call} {nl : List Token} (hnl : Newlines nl)
    (hb : b = false → nl = []) {u : Token} (hu : b = true → u.kind ≠ .newline)
    (harrow : u.kind ≠ .arrow) (hcomma : u.is comma = false) (rest : List Token) :
    ∀ n c, us.length ≤ n → addAll? c as = some c' →
      Call.argumentsFrom b n c (us ++ nl ++ u :: rest) = .ok (c', u :: rest) := by
  induction h with
  | @one ts a ha =>
    intro n c hn hall
    obtain ⟨c1, hadd, h1⟩ := Option.bind_eq_some_iff.mp hall
    obtain rfl := Option.some.inj h1
    obtain ⟨t, us, rfl, -⟩ := ha.head
    obtain ⟨m, rfl⟩ : ∃ m, n = m + 1 := ⟨n - 1, by simp at hn; omega⟩
    have harg : c.argument (t :: us ++ (nl ++ u :: rest)) = .ok (c1, nl ++ u :: rest) := by
      cases nl with
      | nil => exact argument_complete ha hadd harrow rest
      | cons w nl => exact argument_complete ha hadd (by rw [hnl w (by simp)]; decide) _
    rw [List.append_assoc, Call.argumentsFrom, harg, ok_bind]
    show (if startsWith comma (passNewlines b (nl ++ u :: rest)) then _
      else Except.ok (c1, passNewlines b (nl ++ u :: rest))) = _
    rw [passNewlines_to hnl hb hu, startsWith_cons, hcomma, if_neg Bool.false_ne_true]
  | @more ts ss us a as ha hss hsep ih =>
    intro n c hn hall
    obtain ⟨c1, hadd, h1⟩ := Option.bind_eq_some_iff.mp hall
    simp only [List.length_append] at hn
    obtain ⟨t, us', rfl, -⟩ := ha.head
    rw [List.length_cons] at hn
    obtain ⟨m, rfl⟩ : ∃ m, n = m + 1 := ⟨n - 1, by omega⟩
    have hrest := ih m c1 (by omega) h1
    have harg : c.argument (t :: us' ++ (ss ++ (us ++ nl ++ u :: rest)))
        = .ok (c1, ss ++ (us ++ nl ++ u :: rest)) := by
      obtain ⟨w, ws, rfl, hw⟩ := hss.head
      refine argument_complete ha hadd ?_ _
      rcases hw with hw | hw
      · rw [hw]; decide
      · rw [kind_of_is hw]; decide
    have hskip : skipNewlines (us ++ nl ++ u :: rest) = us ++ nl ++ u :: rest := by
      obtain ⟨t, us', rfl, ht⟩ := hsep.head fun _ _ => IsArgument.head
      exact skipNewlines_of_ne (ht.kind_ne (by decide)) _
    have e : t :: us' ++ ss ++ us ++ nl ++ u :: rest
        = t :: us' ++ (ss ++ (us ++ nl ++ u :: rest)) := by simp
    rw [e, Call.argumentsFrom, harg, ok_bind]
    show (if startsWith comma (passNewlines b (ss ++ (us ++ nl ++ u :: rest))) then
      Call.argumentsFrom b m c1 (skipNewlines ((passNewlines b (ss ++ _)).drop 1)) else _) = _
    rw [if_pos (hss.startsWith _), hss.skip, hskip, hrest]

/-! ## the arguments of a statement -/

/-- a token that may stand behind the arguments of a statement: what ends the statement, or what
opens its block -/
def Follows (t : Token) : Prop :=
  t.kind = .newline ∨ t.kind = .endOfFile ∨ t.is (word "do") = true ∨ t.is (word "end") = true ∨
    t.is openBrace = true ∨ t.is closeBrace = true

lemma Follows.kind_ne_arrow {t : Token} (h : Follows t) : t.kind ≠ .arrow := by
  rcases h with h | h | h | h | h | h
  · rw [h]; decide
  · rw [h]; decide
  all_goals rw [kind_of_is h]; decide

lemma Follows.not_is {t : Token} (h : Follows t) {m : Mark} (hk : m.kind = .punct)
    (h1 : openBrace ≠ m) (h2 : closeBrace ≠ m) : t.is m = false := by
  rcases h with h | h | h | h | h | h
  · exact not_is_of_kind (by rw [h, hk]; decide)
  · exact not_is_of_kind (by rw [h, hk]; decide)
  · exact not_is_of_kind (by rw [kind_of_is h, hk]; decide)
  · exact not_is_of_kind (by rw [kind_of_is h, hk]; decide)
  · exact not_is_of_is h h1
  · exact not_is_of_is h h2

lemma Follows.not_startsArgument {t : Token} (h : Follows t) :
    Statement.startsArgument t = false := by
  have hword : ∀ {s : String}, t.is (word s) = true → keyword? s.toList = none →
      Statement.startsArgument t = false := by
    intro s hs hn
    obtain ⟨hk, ht⟩ := (is_iff _ _).mp hs
    simp [Statement.startsArgument, hk, word, ht, hn]
  have hpunct : ∀ {m : Mark}, t.is m = true → m.kind = .punct → m ≠ openList →
      Statement.startsArgument t = false := by
    intro m hm hk hne
    have hkt : t.kind = .punct := (kind_of_is hm).trans hk
    simp [Statement.startsArgument, hkt, not_is_of_is hm hne]
  rcases h with h | h | h | h | h | h
  · simp [Statement.startsArgument, h]
  · simp [Statement.startsArgument, h]
  · exact hword h (by decide)
  · exact hword h (by decide)
  · exact hpunct h rfl (by decide)
  · exact hpunct h rfl (by decide)

lemma startsArgument_of_head {t : Token} (h : Begins t)
    (hb : t.is openBrace = false) : Statement.startsArgument t = true := by
  rcases h with h | ⟨v, hv⟩ | h | h
  · simp [Statement.startsArgument, h]
  · cases hv with
    | string hk _ => simp [Statement.startsArgument, hk]
    | symbol hk _ => simp [Statement.startsArgument, hk]
    | quotedSymbol hk _ _ => simp [Statement.startsArgument, hk]
    | number hk => simp [Statement.startsArgument, hk]
    | words hk => simp [Statement.startsArgument, hk]
    | true ht =>
      obtain ⟨hk, ht⟩ := (is_iff _ _).mp ht
      simp only [Statement.startsArgument, hk, ht, word]
      decide
    | false ht =>
      obtain ⟨hk, ht⟩ := (is_iff _ _).mp ht
      simp only [Statement.startsArgument, hk, ht, word]
      decide
    | nil ht =>
      obtain ⟨hk, ht⟩ := (is_iff _ _).mp ht
      simp only [Statement.startsArgument, hk, ht, word]
      decide
  · have hk : t.kind = .punct := kind_of_is h
    simp [Statement.startsArgument, hk, h]
  · rw [h] at hb
    simp at hb

lemma startsArgument_not_openBrace {t : Token} (h : Statement.startsArgument t = true) :
    t.is openBrace = false := by
  rw [Bool.eq_false_iff]
  intro hb
  have hk : t.kind = .punct := kind_of_is hb
  simp [Statement.startsArgument, hk, not_is_of_is hb (show openBrace ≠ openList by decide)] at h

/-- the arguments behind an opening bracket -/
lemma inBrackets_sound {t : Token} {ts rest : List Token} {c : Call} (ht : t.is openCall = true)
    (hs : Spelled ts) (h : Call.inBrackets ts = .ok (c, rest)) :
    ∃ us, IsCall .bracketed us c ∧ t :: ts = us ++ rest := by
  rw [Call.inBrackets] at h
  obtain ⟨nl, hts, hnl⟩ := skipNewlines_sound ts
  dsimp only at h
  split at h
  · next hcl =>
    obtain ⟨rfl, rfl⟩ := Prod.mk.inj (Except.ok.inj h)
    cases hu : skipNewlines ts with
    | nil => simp [hu, startsWith] at hcl
    | cons u us =>
      rw [hu] at hcl
      refine ⟨t :: nl ++ [u], .empty ht hnl hcl, ?_⟩
      rw [hts, hu]
      simp
  · obtain ⟨⟨c', r⟩, ha, h⟩ := bind_eq_ok.mp h
    obtain ⟨r', hx, h⟩ := bind_eq_ok.mp h
    obtain ⟨rfl, rfl⟩ := Prod.mk.inj (Except.ok.inj h)
    have hs' : Spelled (skipNewlines ts) := by
      rw [hts] at hs
      exact hs.of_append
    obtain ⟨us, nl', as, hsep, hnl', -, e, hall⟩ := argumentsFrom_sound hs' ha
    obtain ⟨u, rfl, hu⟩ := expect_sound hx
    refine ⟨t :: (nl ++ us ++ nl') ++ [u],
      .bracketed ht hnl hsep hnl' hu (callOf_iff.mpr ⟨c', hall, rfl⟩), ?_⟩
    rw [hts, e]
    simp

/-- the arguments where no bracket announces them -/
lemma bare_sound {t : Token} {ts rest : List Token} {c : Call} (ho : ¬t.is openCall = true)
    (ht : Statement.startsArgument t = true) (hs : Spelled (t :: ts))
    (h : Call.bare (t :: ts) = .ok (c, rest)) : ∃ us, IsCall .bare us c ∧ t :: ts = us ++ rest := by
  rw [Call.bare] at h
  obtain ⟨⟨c', r⟩, ha, h⟩ := bind_eq_ok.mp h
  obtain ⟨rfl, rfl⟩ := Prod.mk.inj (Except.ok.inj h)
  obtain ⟨us, nl, as, hsep, -, hnil, e, hall⟩ := argumentsFrom_sound hs ha
  obtain rfl := hnil rfl
  rw [List.append_nil] at e
  obtain ⟨w, ws, rfl, -⟩ := hsep.head fun _ _ => IsArgument.head
  obtain ⟨rfl, -⟩ := List.cons.inj e
  refine ⟨t :: ws, .bare hsep ?_ ho (callOf_iff.mpr ⟨c', hall, rfl⟩), e⟩
  rw [startsArgument_not_openBrace ht]
  exact Bool.false_ne_true

theorem callOf_sound {ts rest : List Token} {c : Call} {b : Bool} (hs : Spelled ts)
    (h : Statement.callOf ts = .ok (c, b, rest)) :
    ∃ f us, IsCall f us c ∧ ts = us ++ rest ∧ (b = true ↔ f = .bracketed) := by
  cases ts with
  | nil => simp [Statement.callOf] at h
  | cons t ts =>
    rw [Statement.callOf] at h
    split at h
    · next ho =>
      obtain ⟨⟨c', r⟩, hc, h⟩ := bind_eq_ok.mp h
      cases h
      obtain ⟨us, hus, e⟩ := inBrackets_sound ho hs.of_cons hc
      exact ⟨.bracketed, us, hus, e, by simp⟩
    · next ho =>
      split at h
      · next hst =>
        obtain ⟨⟨c', r⟩, hc, h⟩ := bind_eq_ok.mp h
        cases h
        obtain ⟨us, hus, e⟩ := bare_sound ho hst hs hc
        exact ⟨.bare, us, hus, e, by simp⟩
      · cases h
        exact ⟨.absent, [], .absent, rfl, by simp⟩

lemma inBrackets_empty {nl : List Token} {w : Token} (hn : Newlines nl) (hw : w.is closeCall = true)
    (rest : List Token) : Call.inBrackets (nl ++ w :: rest) = .ok (Call.empty, rest) := by
  have hk : w.kind ≠ .newline := by rw [kind_of_is hw]; decide
  rw [Call.inBrackets, skipNewlines_to hn hk]
  dsimp only
  rw [startsWith_cons, if_pos hw]
  rfl

lemma inBrackets_complete {nl ts nl' : List Token} {as : List Argument} {c : Call} {w : Token}
    (hn : Newlines nl) (hsep : Separated IsArgument (Comma true) ts as) (hn' : Newlines nl')
    (hw : w.is closeCall = true) (hc : CallOf as c) (rest : List Token) :
    Call.inBrackets (nl ++ (ts ++ nl' ++ w :: rest)) = .ok (c, rest) := by
  obtain ⟨c', hall, rfl⟩ := callOf_iff.mp hc
  have hk : w.kind ≠ .newline := by rw [kind_of_is hw]; decide
  have hka : w.kind ≠ .arrow := by rw [kind_of_is hw]; decide
  have ha := argumentsFrom_complete hsep hn' nofun (fun _ => hk) hka
    (not_is_of_is hw (by decide)) rest ((ts ++ nl' ++ w :: rest).length + 1)
    Call.empty (by simp only [List.length_append]; omega) hall
  obtain ⟨x, ts, rfl, hx⟩ := hsep.head fun _ _ => IsArgument.head
  have hskip : skipNewlines (nl ++ (x :: ts ++ nl' ++ w :: rest)) = x :: ts ++ nl' ++ w :: rest :=
    skipNewlines_to hn (hx.kind_ne (by decide)) _
  have hxc : x.is closeCall = false := hx.not_is rfl (by decide) (by decide)
  rw [Call.inBrackets, hskip]
  dsimp only
  rw [show startsWith closeCall (x :: ts ++ nl' ++ w :: rest) = false from hxc,
    if_neg Bool.false_ne_true, ha, ok_bind]
  dsimp only
  rw [expect_of_is hw]
  rfl

lemma bare_complete {ts : List Token} {as : List Argument} {c : Call}
    (hsep : Separated IsArgument (Comma false) ts as) (hc : CallOf as c) {u : Token} (hu : Follows u)
    (rest : List Token) : Call.bare (ts ++ u :: rest) = .ok (c, u :: rest) := by
  obtain ⟨c', hall, rfl⟩ := callOf_iff.mp hc
  have hcomma : u.is comma = false := hu.not_is rfl (by decide) (by decide)
  have ha := argumentsFrom_complete hsep newlines_nil (fun _ => rfl) nofun hu.kind_ne_arrow
    hcomma rest ((ts ++ u :: rest).length + 1)
    Call.empty (by simp only [List.length_append]; omega) hall
  rw [List.append_nil] at ha
  rw [Call.bare, ha]
  rfl

theorem callOf_complete {f : Form} {us : List Token} {c : Call} (h : IsCall f us c) {u : Token}
    (hu : Follows u) (rest : List Token) :
    Statement.callOf (us ++ u :: rest) = .ok (c, decide (f = .bracketed), u :: rest) := by
  cases h with
  | absent =>
    rw [List.nil_append, Statement.callOf, hu.not_is rfl (by decide) (by decide),
      if_neg Bool.false_ne_true, hu.not_startsArgument, if_neg Bool.false_ne_true]
    rfl
  | @empty t w nl ht hnl hw =>
    rw [List.append_assoc, List.cons_append, Statement.callOf, if_pos ht, List.singleton_append,
      inBrackets_empty hnl hw]
    rfl
  | @bracketed t w nl ts nl' as c ht hnl hsep hnl' hw hc =>
    have e : t :: (nl ++ ts ++ nl') ++ [w] ++ u :: rest
        = t :: (nl ++ (ts ++ nl' ++ w :: u :: rest)) := by simp
    rw [e, Statement.callOf, if_pos ht, inBrackets_complete hnl hsep hnl' hw hc]
    rfl
  | @bare t ts as c hsep hb ho hc =>
    obtain ⟨x, ts', e, hx⟩ := hsep.head fun _ _ => IsArgument.head
    obtain ⟨rfl, -⟩ := List.cons.inj e
    have hst := startsArgument_of_head hx (Bool.eq_false_iff.mpr hb)
    have ha := bare_complete hsep hc hu rest
    rw [List.cons_append] at ha ⊢
    rw [Statement.callOf, if_neg ho, if_pos hst, ha]
    rfl

lemma numeralValue_ne_hash (cs : List Char) (h : Options) : numeralValue cs ≠ .hash h := by
  have hu : ∀ b cs, unsignedValue b cs ≠ .hash h := by
    intro b cs
    rw [unsignedValue]
    split <;> simp
  unfold numeralValue
  split
  · exact hu _ _
  · exact hu _ _

lemma openBrace_of_hash {t : Token} {ts : List Token} {h : Options}
    (hv : IsValue (t :: ts) (.hash h)) : t.is openBrace = true := by
  generalize e : t :: ts = us at hv
  generalize e' : Value.hash h = v at hv
  cases hv with
  | literal hl =>
    cases hl with
    | number hk => exact absurd e'.symm (numeralValue_ne_hash _ h)
    | _ => simp [wordsValue] at e'
  | list hb => simp at e'
  | hash hb =>
    obtain ⟨ho, -, -, -⟩ := hb
    obtain ⟨rfl, -⟩ := List.cons.inj e
    exact ho

/-- arguments without brackets are never nothing: what settles to nothing is one empty hash, and that
would start with a brace -/
lemma bare_ne_empty {ts : List Token} {c : Call} (h : IsCall .bare ts c) : c ≠ Call.empty := by
  rintro rfl
  generalize e : Call.empty = c at h
  cases h with
  | @bare t ts as c hsep hb ho hc =>
    cases hc with
    | @plain vs es hl =>
      obtain ⟨h1, h2⟩ := Call.mk.inj e
      obtain rfl := h1
      obtain rfl := putAll_eq_nil h2.symm
      exact hsep.ne_nil rfl
    | @trailingHash vs h =>
      obtain ⟨h1, h2⟩ := Call.mk.inj e
      obtain rfl := h1
      obtain rfl := h2
      cases hsep.of_singleton with
      | value hv => exact hb (openBrace_of_hash hv)

/-- braces open a block where the grammar lets them -/
lemma braces_iff {f : Form} {us : List Token} {c : Call} (h : IsCall f us c) :
    (decide (f = .bracketed) || decide (c = Call.empty)) = decide (f ≠ .bare) := by
  cases f with
  | absent =>
    cases h
    simp
  | bracketed => simp
  | bare => simp [bare_ne_empty h]

end Gemfile.Grammar
