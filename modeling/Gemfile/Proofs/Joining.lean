import Gemfile.Proofs.Joining.Reading

/-!
# Files joined by a line break

A file that is complete ends where a line break behind it would end a statement too, so what stands
behind that is read as a file of its own, further down.

* `Statement.later`        a statement with all its lines further down
* `Statement.relined g`    a statement with all its lines changed by `g`
* `statementsAlike`        statements are read alike from tokens on other lines
* `sequenceFrom_append`    behind statements and a line break a sequence is read as by itself
* `ofTokens_join`          so tokens that are joined are read one after the other
* `parse_join`             and so are texts, with the fault of the second one if it has one
-/

namespace Gemfile
open Token

namespace Statement

mutual

/-- the same statement, it and the statements of its block so many lines further down -/
def later (d : Nat) : Statement → Statement
  | ⟨name, args, options, body, line⟩ =>
    ⟨name, args, options,
      match body with
      | none => none
      | some b => some (laterAll d b), line + d⟩

def laterAll (d : Nat) : List Statement → List Statement
  | [] => []
  | t :: ts => later d t :: laterAll d ts

end

mutual

/-- the same statement, it and the statements of its block on the lines that `g` has for theirs -/
def relined (g : Nat → Nat) : Statement → Statement
  | ⟨name, args, options, body, line⟩ =>
    ⟨name, args, options,
      match body with
      | none => none
      | some b => some (relinedAll g b), g line⟩

def relinedAll (g : Nat → Nat) : List Statement → List Statement
  | [] => []
  | t :: ts => relined g t :: relinedAll g ts

end

lemma relinedAll_later (d : Nat) (ts : List Statement) : relinedAll (· + d) ts = laterAll d ts := by
  induction ts using induct with
  | nil => rw [relinedAll, laterAll]
  | cons t ts block rest =>
    obtain ⟨name, args, options, body, line⟩ := t
    rw [relinedAll, laterAll, rest]
    cases body with
    | none => rw [relined, later]
    | some b => rw [relined, later, block b rfl]

/-! ## statements are read alike -/

section
variable {g : Nat → Nat}

/-- the same call, and fewer than `n` tokens that are left -/
inductive CallTaken (g : Nat → Nat) (n : Nat) :
    Call × Bool × List Token → Call × Bool × List Token → Prop
  | mk {c : Call} {bracketed : Bool} {ts : List Token} : Ended ts → ts.length < n →
      CallTaken g n (c, bracketed, ts) (c, bracketed, ts.map (Token.relined g))

lemma callOf_alike {ts : List Token} (he : Ended ts) :
    Alike g (CallTaken g (ts.length + 1)) (callOf ts) (callOf (ts.map (Token.relined g))) := by
  cases ts with
  | nil => exact absurd he.length_pos (by simp)
  | cons t ts =>
    rw [List.map_cons, callOf, callOf, relined_is,
      show startsArgument (t.relined g) = startsArgument t from rfl]
    split
    · next ho =>
      refine (Call.inBrackets_alike (he.tail (by rw [Grammar.kind_of_is ho]; decide))).bind ?_
      rintro ⟨c, r⟩ _ ⟨hr, hl⟩
      exact .ok (.mk hr (Nat.lt_succ_of_lt hl))
    · split
      · refine (Call.bare_alike he).bind ?_
        rintro ⟨c, r⟩ _ ⟨hr, hl⟩
        exact .ok (.mk hr (Nat.lt_succ_of_lt hl))
      · exact .ok (.mk he (Nat.lt_succ_self _))

lemma blockEnd?_relined (c : Call) (bracketed : Bool) (ts : List Token) :
    blockEnd? c bracketed (ts.map (Token.relined g)) = blockEnd? c bracketed ts := by
  unfold blockEnd?
  rw [startsWith_relined, startsWith_relined]

lemma blockEnd?_ended {c : Call} {bracketed : Bool} {ts : List Token} {m : Mark}
    (h : blockEnd? c bracketed ts = some m) (he : Ended ts) :
    Ended (ts.drop 1) ∧ (ts.drop 1).length + 1 = ts.length ∧ m.kind ≠ .endOfFile := by
  unfold blockEnd? at h
  split at h
  · next hs =>
    obtain rfl := Option.some.inj h
    obtain ⟨h1, h2⟩ := he.drop hs (by decide)
    exact ⟨h1, h2, by decide⟩
  · split at h
    · next hs =>
      obtain rfl := Option.some.inj h
      obtain ⟨h1, h2⟩ := he.drop (Bool.and_eq_true_iff.mp hs).1 (by decide)
      exact ⟨h1, h2, by decide⟩
    · cases h

/-- statements up to a mark, with the mark in front of the tokens that are left -/
structure SequenceTaken (g : Nat → Nat) (n : Nat) (closing : Option Mark)
    (p q : Parsed (List Statement)) : Prop where
  taken : Taken g n (relinedAll g) p q
  closed : ∀ m, closing = some m → startsWith m p.2 = true

/-- `n` readers and any other number that is enough read alike -/
structure StatementsAlike (g : Nat → Nat) (n : Nat) : Prop where
  sequence : ∀ m closing ts, Ended ts → 2 * ts.length + 1 ≤ n → 2 * ts.length + 1 ≤ m →
    Alike g (SequenceTaken g (ts.length + 1) closing) (sequenceFrom n closing ts)
      (sequenceFrom m closing (ts.map (Token.relined g)))
  statement : ∀ m ts, Ended ts → 2 * ts.length ≤ n → 2 * ts.length ≤ m →
    Alike g (Taken g ts.length (relined g)) (statementFrom n ts)
      (statementFrom m (ts.map (Token.relined g)))

section
variable {n : Nat} (hn : StatementsAlike g n)
include hn

lemma sequenceFrom_alike (m : Nat) (closing : Option Mark) (ts : List Token) (he : Ended ts)
    (h : 2 * ts.length + 1 ≤ n + 1) (h' : 2 * ts.length + 1 ≤ m) :
    Alike g (SequenceTaken g (ts.length + 1) closing) (sequenceFrom (n + 1) closing ts)
      (sequenceFrom m closing (ts.map (Token.relined g))) := by
  obtain ⟨m, rfl⟩ : ∃ m', m = m' + 1 := ⟨m - 1, by omega⟩
  rw [sequenceFrom, sequenceFrom, skipNewlines_relined]
  have he' := he.skip
  have hskip := length_skipNewlines_le ts
  cases hs : skipNewlines ts with
  | nil =>
    rw [hs] at he'
    exact absurd he'.length_pos (by simp)
  | cons t r =>
    rw [hs] at he' hskip
    rw [List.map_cons]
    dsimp only
    rw [relined_isKind, show (t.relined g).is = t.is from rfl]
    split
    · next hc =>
      refine .ok ⟨.mk (f := relinedAll g) he' (Nat.lt_succ_of_le hskip), ?_⟩
      rintro m rfl
      exact hc
    · split
      · cases closing with
        | none =>
          exact .ok ⟨.mk (f := relinedAll g) he' (Nat.lt_succ_of_le hskip), fun _ h => absurd h (by simp)⟩
        | some m => exact .error _
      · refine (hn.statement m (t :: r) he' (by omega) (by omega)).bind ?_
        rintro ⟨s, r'⟩ _ ⟨hr, hl⟩
        cases r' with
        | nil => exact absurd hr.length_pos (by simp)
        | cons u us =>
          rw [List.map_cons]
          dsimp only
          rw [show endsStatement closing (u.relined g) = endsStatement closing u from rfl]
          split
          · refine (hn.sequence m closing (u :: us) hr (by omega) (by omega)).bind ?_
            rintro ⟨ss, r''⟩ _ ⟨⟨hr', hl'⟩, hclosed⟩
            have hlen : r''.length < ts.length + 1 := by omega
            exact .ok ⟨.mk (f := relinedAll g) (a := s :: ss) hr' hlen, hclosed⟩
          · exact .error _

lemma statementFrom_alike (m : Nat) (ts : List Token) (he : Ended ts) (h : 2 * ts.length ≤ n + 1)
    (h' : 2 * ts.length ≤ m) :
    Alike g (Taken g ts.length (relined g)) (statementFrom (n + 1) ts)
      (statementFrom m (ts.map (Token.relined g))) := by
  cases ts with
  | nil => exact absurd he.length_pos (by simp)
  | cons t ts =>
    rw [List.length_cons] at h h'
    obtain ⟨m, rfl⟩ : ∃ m', m = m' + 1 := ⟨m - 1, by omega⟩
    rw [List.map_cons, statementFrom, statementFrom,
      show startsStatement (t.relined g) = startsStatement t from rfl]
    split
    · next ht =>
      have hname := (Grammar.startsStatement_iff t).mp ht
      have he' : Ended ts := he.tail (hname.kind_ne (by decide))
      refine (callOf_alike he').bind ?_
      rintro ⟨c, b, r⟩ _ ⟨hr, hl⟩
      dsimp only
      rw [blockEnd?_relined]
      cases hb : blockEnd? c b r with
      | none => exact .ok (.mk (f := relined g) hr hl)
      | some k =>
        obtain ⟨ho, hol, hk⟩ := blockEnd?_ended hb hr
        dsimp only
        rw [← List.map_drop]
        refine (hn.sequence m (some k) _ ho (by omega) (by omega)).bind ?_
        rintro ⟨body, r'⟩ _ ⟨⟨hr', hl'⟩, hclosed⟩
        obtain ⟨hc, hcl⟩ := hr'.drop (hclosed k rfl) hk
        have hlen : (r'.drop 1).length < (t :: ts).length := by
          rw [List.length_cons]
          omega
        dsimp only
        rw [← List.map_drop]
        exact .ok (.mk (f := relined g) (a := ⟨t.spelling, c.args, c.options, some body, t.line⟩)
          hc hlen)
    · exact .error _

end

theorem statementsAlike (g : Nat → Nat) (n : Nat) : StatementsAlike g n := by
  induction n with
  | zero =>
    constructor
    · intro m closing ts he h
      omega
    · intro m ts he h
      have := he.length_pos
      omega
  | succ n ih => exact ⟨sequenceFrom_alike ih, statementFrom_alike ih⟩

end

/-! ## one file behind another -/

section
open Grammar

lemma sequenceFrom_newlines {nl : List Token} (h : Newlines nl) (n : Nat) (closing : Option Mark)
    (ts : List Token) : sequenceFrom n closing (nl ++ ts) = sequenceFrom n closing ts := by
  cases n with
  | zero => rw [sequenceFrom, sequenceFrom]
  | succ n => rw [sequenceFrom, sequenceFrom, skipNewlines_append h]

lemma map_cons_map (s : Statement) (ss : List Statement)
    (x : Except SyntaxFault (Parsed (List Statement))) :
    (x.map fun p => (ss ++ p.1, p.2)).map (fun p => (s :: p.1, p.2)) =
      x.map fun p => (s :: ss ++ p.1, p.2) := by
  cases x <;> rfl

/-- as many readers are left behind the statements as the tokens from the line break on need -/
lemma sequenceFrom_append {us : List Token} {ss : List Statement} (h : IsSequence us ss) {w : Token}
    (hw : w.kind = .newline) (rest : List Token) {n : Nat}
    (hn : 2 * (us ++ w :: rest).length + 1 ≤ n) :
    ∃ m, 2 * (w :: rest).length + 1 ≤ m ∧ sequenceFrom n none (us ++ w :: rest) =
      (sequenceFrom m none (w :: rest)).map fun p => (ss ++ p.1, p.2) := by
  have hends : ∀ {t : Token}, t.kind = .newline → endsStatement none t = true := by
    intro t ht
    simp [endsStatement, Token.isKind, ht]
  cases h with
  | empty hnl =>
    refine ⟨n, ?_, ?_⟩
    · rw [List.length_append] at hn
      omega
    · rw [sequenceFrom_newlines hnl]
      cases sequenceFrom n none (w :: rest) <;> rfl
  | @statements nl ts nl' ss hnl hs hnl' =>
    induction hs generalizing nl n with
    | @one ts s hs =>
      obtain ⟨m, rfl⟩ : ∃ m, n = m + 1 := ⟨n - 1, by omega⟩
      obtain ⟨t, ts', rfl, -⟩ := hs.head
      simp only [List.length_append, List.length_cons] at hn
      refine ⟨m, by rw [List.length_cons]; omega, ?_⟩
      -- the statement ends at the first newline behind it
      obtain ⟨u, us, hu, e⟩ : ∃ u us, u.kind = .newline ∧ nl' ++ w :: rest = u :: us := by
        cases nl' with
        | nil => exact ⟨w, rest, hw, rfl⟩
        | cons u nl' => exact ⟨u, _, hnl' u List.mem_cons_self, rfl⟩
      have hread := sequenceFrom_cons_eq hnl (readsStatement hs) (.inl rfl) (hends hu)
        (m := m) (by rw [List.length_cons]; omega) us
      rw [← e, sequenceFrom_newlines hnl'] at hread
      rw [List.append_assoc, List.append_assoc]
      exact hread
    | @more ts br us s ss hs hbr hsep ih =>
      obtain ⟨m, rfl⟩ : ∃ m, n = m + 1 := ⟨n - 1, by omega⟩
      obtain ⟨t, ts', rfl, -⟩ := hs.head
      obtain ⟨u, br, rfl⟩ := List.exists_cons_of_ne_nil hbr.1
      have hlen : 2 * (u :: br ++ us ++ nl' ++ w :: rest).length + 1 ≤ m := by
        simp only [List.length_append, List.length_cons] at hn ⊢
        omega
      obtain ⟨k, hk, e⟩ := ih hbr.2 hlen
      refine ⟨k, hk, ?_⟩
      have hread := sequenceFrom_cons_eq hnl (readsStatement hs) (.inl rfl)
        (hends (hbr.2 u List.mem_cons_self)) (m := m)
        (by simp only [List.length_append, List.length_cons] at hn ⊢; omega)
        (br ++ us ++ nl' ++ w :: rest)
      rw [show u :: (br ++ us ++ nl' ++ w :: rest) = u :: br ++ us ++ nl' ++ w :: rest by simp, e,
        map_cons_map] at hread
      rw [← hread]
      simp

theorem ofTokens_join {us vs : List Token} {ss : List Statement} (h : IsSequence us ss) {w : Token}
    (hw : w.kind = .newline) (hv : Ended vs) (d : Nat) :
    ofTokens (us ++ w :: vs.map (Token.later d)) = match ofTokens vs with
      | .ok ss' => .ok (ss ++ laterAll d ss')
      | .error f => .error (f.later d) := by
  obtain ⟨m, hm, e⟩ := sequenceFrom_append h hw (vs.map (Token.later d))
    (n := readers (us ++ w :: vs.map (Token.later d))) (by unfold readers; omega)
  have hwn : Newlines [w] := by simpa [Newlines] using hw
  have hread := (statementsAlike (· + d) (readers vs)).sequence m none vs hv (by unfold readers; omega)
    (by rw [List.length_cons, List.length_map] at hm; omega)
  unfold ofTokens
  rw [e, show w :: vs.map (Token.later d) = [w] ++ vs.map (Token.later d) from rfl,
    sequenceFrom_newlines hwn]
  rw [show Token.relined (· + d) = Token.later d from rfl] at hread
  generalize sequenceFrom (readers vs) none vs = x at hread
  generalize sequenceFrom m none (vs.map (Token.later d)) = y at hread
  cases hread with
  | ok hread =>
    obtain ⟨⟨_, _⟩, _⟩ := hread
    show Except.ok (ss ++ relinedAll (· + d) _) = Except.ok (ss ++ laterAll d _)
    rw [relinedAll_later]
  | error f => rfl

end

end Statement

/-- A text that can be read, a line break and another text: its statements and those of the other one
further down, or the fault of the other one further down. -/
theorem parse_join {a : List Char} {ss : List Statement} (h : Statement.parse a = .ok ss)
    (b : List Char) :
    Statement.parse (a ++ '\n' :: b) = match Statement.parse b with
      | .ok us => .ok (ss ++ Statement.laterAll (1 + lineBreaks a) us)
      | .error f => .error (f.later (1 + lineBreaks a)) := by
  obtain ⟨ts, hscan, hread⟩ := bind_eq_ok.mp h
  obtain ⟨us, rfl, hjoin⟩ := scan_join hscan b
  have hseq : Grammar.IsSequence us ss := by
    have hp := Grammar.ofTokens_sound hscan hread
    generalize ht : us ++ [endOfFile (1 + lineBreaks a)] = ts at hp
    obtain @⟨e, us', ss, hs, _⟩ := hp
    rw [(List.append_inj' ht rfl).1]
    exact hs
  unfold Statement.parse
  rw [hjoin]
  cases hb : scan b with
  | error f => rfl
  | ok vs =>
    obtain ⟨body, e, rfl, he, _⟩ := scan_endOfFile hb
    exact Statement.ofTokens_join hseq rfl ⟨e, by simp, he⟩ _

/-- the line break is the second one, so a block behind it begins on the third line; a quote that is
not closed shows there too -/
theorem parse_join_block :
    Statement.parse "gem 'a'\n\ngroup :t do\ngem 'b'\nend".toList =
        .ok [⟨"gem", [.str "a"], [], none, 1⟩,
          ⟨"group", [.str "t"], [], some [⟨"gem", [.str "b"], [], none, 4⟩], 3⟩] ∧
      Statement.parse "gem 'a'\n\ngroup 't".toList = .error ⟨3, .unexpectedCharacter '\x27'⟩ := by
  have ha : lexemes "gem 'a'\n".toList = ([⟨.name, "gem".toList⟩, ⟨.gap, " ".toList⟩,
      ⟨.string, "'a'".toList⟩, ⟨.newline, "\n".toList⟩], []) := by
    rw [lexemes_eq_within (n := 10) (by decide)]
    decide +kernel
  have hb : lexemes "group :t do\ngem 'b'\nend".toList = ([⟨.name, "group".toList⟩,
      ⟨.gap, " ".toList⟩, ⟨.symbol, ":t".toList⟩, ⟨.gap, " ".toList⟩, ⟨.name, "do".toList⟩,
      ⟨.newline, "\n".toList⟩, ⟨.name, "gem".toList⟩, ⟨.gap, " ".toList⟩, ⟨.string, "'b'".toList⟩,
      ⟨.newline, "\n".toList⟩, ⟨.name, "end".toList⟩], []) := by
    rw [lexemes_eq_within (n := 30) (by decide)]
    decide +kernel
  have hc : lexemes "group 't".toList = ([⟨.name, "group".toList⟩, ⟨.gap, " ".toList⟩],
      "'t".toList) := by
    rw [lexemes_eq_within (n := 10) (by decide)]
    decide +kernel
  have hread : Statement.parse "gem 'a'\n".toList = .ok [⟨"gem", [.str "a"], [], none, 1⟩] := by
    unfold Statement.parse
    rw [scan_of_lexemes ha]
    rfl
  constructor
  · refine (parse_join hread "group :t do\ngem 'b'\nend".toList).trans ?_
    unfold Statement.parse
    rw [scan_of_lexemes hb]
    rfl
  · refine (parse_join hread "group 't".toList).trans ?_
    unfold Statement.parse scan
    rw [hc]
    rfl

end Gemfile
