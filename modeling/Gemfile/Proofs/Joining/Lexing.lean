import Gemfile.Proofs.Lexing

/-!
# A text with a line break and more behind it

* `Token.Local cut`      what `cut` cuts off a text is cut off too with a line break behind the text
* `Token.Stable cut`     and nothing else is
* `Token.stable_or_local`   the kinds that can begin with a character are all stable, or one that is local
* `Token.lexeme?_local`  so a lexeme neither grows nor changes its kind
* `Token.lexemes_join`   and the lexemes of a text that is lexemes to its end stay what they are
* `Token.scan_join`      so do its tokens, and those behind it are as many lines further down
-/

namespace Gemfile

/-- the same token so many lines further down -/
def Token.later (d : Nat) (t : Token) : Token := { t with line := t.line + d }

def SyntaxFault.later (d : Nat) (f : SyntaxFault) : SyntaxFault := { f with line := f.line + d }

namespace Token

/-- a rest with a line break and a text behind it -/
def behind (b : List Char) (t : List Char × List Char) : List Char × List Char :=
  (t.1, t.2 ++ '\n' :: b)

def Stable (cut : List Char → Cut) : Prop :=
  ∀ cs b, cut (cs ++ '\n' :: b) = (cut cs).map (behind b)

def Local (cut : List Char → Cut) : Prop :=
  ∀ cs b t, cut cs = some t → cut (cs ++ '\n' :: b) = some (behind b t)

lemma Stable.local {cut : List Char → Cut} (h : Stable cut) : Local cut := by
  intro cs b t ht
  rw [h cs b, ht]
  rfl

/-! ## stable cuts -/

lemma stable_single {p : Char → Bool} (h : p '\n' = false) : Stable (single p) := by
  intro cs b
  cases cs with
  | nil => exact single_none h b
  | cons c cs =>
    rw [List.cons_append, single_cons, single_cons]
    cases p c <;> rfl

lemma takeWhile_break {p : Char → Bool} (h : p '\n' = false) (cs b : List Char) :
    (cs ++ '\n' :: b).takeWhile p = cs.takeWhile p := by
  rw [List.takeWhile_append]
  split
  · next hl =>
    rw [List.takeWhile_cons_of_neg (by simp [h]), List.append_nil]
    exact (List.takeWhile_prefix p).eq_of_length hl |>.symm
  · rfl

lemma dropWhile_break {p : Char → Bool} (h : p '\n' = false) (cs b : List Char) :
    (cs ++ '\n' :: b).dropWhile p = cs.dropWhile p ++ '\n' :: b := by
  rw [List.dropWhile_append]
  split
  · next hl =>
    rw [List.dropWhile_cons_of_neg (by simp [h]), List.isEmpty_iff.mp hl]
    rfl
  · rfl

lemma stable_row {p : Char → Bool} (h : p '\n' = false) : Stable (row p) := by
  intro cs b
  unfold row
  rw [takeWhile_break h, dropWhile_break h]
  cases cs.takeWhile p <;> rfl

lemma stable_after {c : Char} {next : List Char → Cut} (hc : '\n' ≠ c) (h : Stable next) :
    Stable (after c next) := by
  intro cs b
  cases cs with
  | nil => exact after_none hc next b
  | cons d cs =>
    rw [List.cons_append, after_cons, after_cons, h cs b]
    split
    · cases next cs <;> rfl
    · rfl

lemma stable_either {first second : List Char → Cut} (h : Stable first) (h' : Stable second) :
    Stable (either first second) := by
  intro cs b
  unfold either
  rw [h cs b, h' cs b]
  cases first cs <;> rfl

lemma stable_optionally {first next : List Char → Cut} (h : Stable first) (h' : Stable next) :
    Stable (optionally first next) := by
  intro cs b
  have h1 := h cs b
  cases hf : first cs with
  | none =>
    rw [hf] at h1
    rw [optionally_none hf, optionally_none h1]
    rfl
  | some t =>
    rw [hf] at h1
    have h2 := h' t.2 b
    cases hn : next t.2 with
    | none =>
      rw [hn] at h2
      rw [optionally_first hf hn, optionally_first h1 h2]
      rfl
    | some u =>
      rw [hn] at h2
      rw [optionally_both hf hn, optionally_both h1 h2]
      rfl

lemma stable_comment : Stable comment := by
  intro cs b
  cases cs with
  | nil => rfl
  | cons c cs =>
    by_cases hc : c = '#'
    · subst hc
      show some ('#' :: (cs ++ '\n' :: b).takeWhile (· != '\n'),
        (cs ++ '\n' :: b).dropWhile (· != '\n')) = _
      rw [takeWhile_break rfl, dropWhile_break rfl]
      rfl
    · have h : ∀ r, comment (c :: r) = none := by
        intro r
        unfold comment
        split
        · next e => exact absurd (List.cons.inj e).1 hc
        · rfl
      rw [List.cons_append, h, h]
      rfl

lemma stable_plainName : Stable plainName := by
  intro cs b
  cases cs with
  | nil => exact plainName_none (by decide) b
  | cons c cs =>
    show (if isNameStart c then some (c :: (cs ++ '\n' :: b).takeWhile isNameChar,
        (cs ++ '\n' :: b).dropWhile isNameChar) else none) =
      (if isNameStart c then some (c :: cs.takeWhile isNameChar, cs.dropWhile isNameChar)
        else none).map (behind b)
    rw [takeWhile_break (by decide), dropWhile_break (by decide)]
    cases isNameStart c <;> rfl

lemma stable_loneColon : Stable loneColon := by
  intro cs b
  cases cs with
  | nil => rfl
  | cons c cs =>
    by_cases hc : c = ':'
    · subst hc
      show (if (cs ++ '\n' :: b).head? = some ':' then none else some ([':'], cs ++ '\n' :: b)) =
        (if cs.head? = some ':' then none else some ([':'], cs)).map (behind b)
      cases cs with
      | nil => rfl
      | cons d cs =>
        show (if some d = some ':' then none else some ([':'], d :: cs ++ '\n' :: b)) =
          (if some d = some ':' then none else some ([':'], d :: cs)).map (behind b)
        split <;> rfl
    · have h : ∀ r, loneColon (c :: r) = none := by
        intro r
        unfold loneColon
        split
        · next e => exact absurd (List.cons.inj e).1 hc
        · rfl
      rw [List.cons_append, h, h]
      rfl

lemma stable_label : Stable label := by
  intro cs b
  unfold label
  rw [stable_plainName cs b]
  cases plainName cs with
  | none => rfl
  | some t =>
    show (loneColon (t.2 ++ '\n' :: b)).map (fun u => (t.1 ++ u.1, u.2)) =
      ((loneColon t.2).map fun u => (t.1 ++ u.1, u.2)).map (behind b)
    rw [stable_loneColon t.2 b]
    cases loneColon t.2 <;> rfl

lemma stable_name : Stable name := stable_optionally stable_plainName (stable_single (by decide))

lemma stable_arrow : Stable arrow := stable_after (by decide) (stable_single (by decide))

lemma stable_number : Stable number := by
  have h : Stable unsigned :=
    stable_optionally (stable_row (by decide)) (stable_after (by decide) (stable_row (by decide)))
  exact stable_either (stable_after (by decide) h) h

lemma stable_punctuation : Stable punctuation := stable_single (by decide)

/-! ## local cuts -/

lemma local_single (p : Char → Bool) : Local (single p) := by
  intro cs b t h
  cases cs with
  | nil => cases h
  | cons c cs =>
    rw [single_cons] at h
    split at h
    · next hp =>
      obtain rfl := Option.some.inj h
      exact if_pos hp
    · cases h

lemma local_after (c : Char) {next : List Char → Cut} (h : Local next) : Local (after c next) := by
  intro cs b t ht
  cases cs with
  | nil => cases ht
  | cons d cs =>
    rw [after_cons] at ht
    split at ht
    · next hd =>
      obtain ⟨u, hu, rfl⟩ := Option.map_eq_some_iff.mp ht
      rw [List.cons_append, after_cons, if_pos hd, h cs b u hu]
      rfl
    · cases ht

/-- where the second kind applies, the first one is not brought about by the line break -/
lemma local_either {first second : List Char → Cut} (h : Local first) (h' : Local second)
    (hn : ∀ cs b t, first cs = none → second cs = some t → first (cs ++ '\n' :: b) = none) :
    Local (either first second) := by
  intro cs b t ht
  unfold either at ht ⊢
  cases hf : first cs with
  | some u =>
    rw [hf] at ht
    obtain rfl := Option.some.inj ht
    rw [h cs b u hf]
  | none =>
    rw [hf] at ht
    rw [hn cs b t hf ht]
    exact h' cs b t ht

/-- two kinds with different first characters -/
lemma local_either_after {c : Char} {next second : List Char → Cut} (h : Local next)
    (h' : Local second) (hnil : second [] = none) (hc : ∀ r, second (c :: r) = none) :
    Local (either (after c next) second) := by
  refine local_either (local_after c h) h' fun cs b t _ ht => ?_
  cases cs with
  | nil =>
    rw [hnil] at ht
    cases ht
  | cons d cs =>
    refine after_none ?_ next (cs ++ '\n' :: b)
    rintro rfl
    rw [hc] at ht
    cases ht

lemma local_upTo (close : Char) : Local (upTo close) := by
  intro cs
  induction cs with
  | nil =>
    intro b t h
    cases h
  | cons c cs ih =>
    intro b t h
    unfold upTo at h
    rw [List.cons_append, upTo]
    split at h
    · next hc =>
      obtain rfl := Option.some.inj h
      rw [if_pos hc]
      rfl
    · next hc =>
      obtain ⟨u, hu, rfl⟩ := Option.map_eq_some_iff.mp h
      rw [if_neg hc, ih b u hu]
      rfl

lemma local_closing (quote : Char) : Local (closing quote) := by
  suffices h : ∀ n, ∀ cs : List Char, cs.length ≤ n → ∀ b t, closing quote cs = some t →
      closing quote (cs ++ '\n' :: b) = some (behind b t) from
    fun cs => h cs.length cs (Nat.le_refl _)
  intro n
  induction n with
  | zero =>
    intro cs hn b t h
    rw [List.length_eq_zero_iff.mp (Nat.le_zero.mp hn), closing_nil] at h
    cases h
  | succ n ih =>
    intro cs hn b t h
    cases cs with
    | nil =>
      rw [closing_nil] at h
      cases h
    | cons c cs =>
      rw [List.length_cons] at hn
      rw [closing_cons] at h
      rw [List.cons_append, closing_cons]
      split at h
      · next hq =>
        obtain rfl := Option.some.inj h
        rw [if_pos hq]
        rfl
      · next hq =>
        rw [if_neg hq]
        split at h
        · next hb =>
          rw [if_pos hb]
          cases cs with
          | nil => cases h
          | cons d cs =>
            rw [List.length_cons] at hn
            dsimp only [List.cons_append] at h ⊢
            split at h
            · cases h
            · next hd =>
              obtain ⟨u, hu, rfl⟩ := Option.map_eq_some_iff.mp h
              rw [if_neg hd, ih cs (by omega) b u hu]
              rfl
        · next hb =>
          obtain ⟨u, hu, rfl⟩ := Option.map_eq_some_iff.mp h
          rw [if_neg hb, ih cs (by omega) b u hu]
          rfl

lemma local_gap : Local gap := by
  have h : Local continuation := by
    refine local_after _ (local_either (local_single _) (local_after _ (local_single _)) ?_)
    intro cs b t _ ht
    cases cs with
    | nil => cases ht
    | cons c cs =>
      rw [after_cons] at ht
      split at ht
      · next hc =>
        subst hc
        rfl
      · cases ht
  refine local_either (stable_row (by decide)).local h fun cs b t hr _ => ?_
  rw [stable_row (by decide) cs b, hr]
  rfl

lemma local_bracketed : Local bracketed := by
  have h : Local (either (after '(' (upTo ')')) (after '{' (upTo '}'))) :=
    local_either_after (local_upTo ')') (local_after '{' (local_upTo '}')) rfl fun _ => rfl
  exact local_either_after (local_upTo ']') h rfl fun _ => rfl

lemma local_words : Local words := by
  refine local_after _ ?_
  exact local_either_after local_bracketed (local_after _ local_bracketed) rfl fun _ => rfl

lemma local_string : Local string :=
  local_either_after (local_closing _) (local_after _ (local_closing _)) rfl fun _ => rfl

lemma local_symbol : Local symbol := by
  refine local_after _ (local_either stable_name.local local_string fun cs b t hn _ => ?_)
  rw [stable_name cs b, hn]
  rfl

/-! ## lexemes -/

/-- the characters that begin the kinds which a line break can bring about -/
def breakable : List Char := ['\n', ';', ' ', '\t', '\r', '\\', '%', ':', '\x27', '"']

lemma stable_of_begins {k : Kind × (List Char → Cut)} (hk : k ∈ cuts) {c : Char}
    (hb : k.1.begins c = true) (hc : c ∉ breakable) : Stable k.2 := by
  simp only [breakable, List.mem_cons, List.not_mem_nil, or_false, not_or] at hc
  simp only [cuts, List.mem_cons, List.not_mem_nil, or_false] at hk
  rcases hk with rfl | rfl | rfl | rfl | rfl | rfl | rfl | rfl | rfl | rfl | rfl
  · simp [Kind.begins, hc] at hb
  · simp [Kind.begins, isGapChar, hc] at hb
  · exact stable_comment
  · exact stable_arrow
  · simp [Kind.begins, hc] at hb
  · exact stable_label
  · simp [Kind.begins, hc] at hb
  · simp [Kind.begins, hc] at hb
  · exact stable_number
  · exact stable_name
  · exact stable_punctuation

lemma stable_or_local (c : Char) :
    (∀ k ∈ cuts.filter (fun k => k.1.begins c), Stable k.2) ∨
      ∃ k, cuts.filter (fun k => k.1.begins c) = [k] ∧ Local k.2 := by
  by_cases hc : c ∈ breakable
  · simp only [breakable, List.mem_cons, List.not_mem_nil, or_false] at hc
    rcases hc with rfl | rfl | rfl | rfl | rfl | rfl | rfl | rfl | rfl | rfl
    · exact .inr ⟨_, rfl, local_single _⟩
    · exact .inr ⟨_, rfl, local_single _⟩
    · exact .inr ⟨_, rfl, local_gap⟩
    · exact .inr ⟨_, rfl, local_gap⟩
    · exact .inr ⟨_, rfl, local_gap⟩
    · exact .inr ⟨_, rfl, local_gap⟩
    · exact .inr ⟨_, rfl, local_words⟩
    · exact .inr ⟨_, rfl, local_symbol⟩
    · exact .inr ⟨_, rfl, local_string⟩
    · exact .inr ⟨_, rfl, local_string⟩
  · refine .inl fun k hk => ?_
    obtain ⟨hk, hb⟩ := List.mem_filter.mp hk
    exact stable_of_begins hk hb hc

lemma firstCut_stable {ks : List (Kind × (List Char → Cut))} (h : ∀ k ∈ ks, Stable k.2)
    (cs b : List Char) :
    firstCut (cs ++ '\n' :: b) ks = (firstCut cs ks).map fun t => (t.1, t.2 ++ '\n' :: b) := by
  induction ks with
  | nil => rfl
  | cons k ks ih =>
    obtain ⟨hk, h⟩ := List.forall_mem_cons.mp h
    rw [firstCut, firstCut, hk cs b]
    cases k.2 cs with
    | some t => rfl
    | none => exact ih h

theorem lexeme?_local {cs r : List Char} {l : Lexeme} (h : lexeme? cs = some (l, r)) (b : List Char) :
    lexeme? (cs ++ '\n' :: b) = some (l, r ++ '\n' :: b) := by
  cases cs with
  | nil => cases h
  | cons c cs =>
    rw [lexeme?_cons] at h
    rw [List.cons_append, lexeme?_cons, ← List.cons_append]
    rcases stable_or_local c with hs | ⟨k, hk, hl⟩
    · rw [firstCut_stable hs, h]
      rfl
    · rw [hk, firstCut] at h
      rw [hk, firstCut]
      cases hcut : k.2 (c :: cs) with
      | none =>
        rw [hcut] at h
        cases h
      | some t =>
        rw [hcut] at h
        rw [hl _ b t hcut]
        cases h
        rfl

theorem lexemes_join {a : List Char} (h : (lexemes a).2 = []) (b : List Char) :
    lexemes (a ++ '\n' :: b) =
      ((lexemes a).1 ++ ⟨.newline, ['\n']⟩ :: (lexemes b).1, (lexemes b).2) := by
  suffices hn : ∀ n, ∀ a : List Char, a.length ≤ n → (lexemes a).2 = [] →
      lexemes (a ++ '\n' :: b) =
        ((lexemes a).1 ++ ⟨.newline, ['\n']⟩ :: (lexemes b).1, (lexemes b).2) from
    hn a.length a (Nat.le_refl _) h
  intro n
  induction n with
  | zero =>
    intro a hn _
    rw [List.length_eq_zero_iff.mp (Nat.le_zero.mp hn), lexemes_nil]
    exact lexemes_of_some (lexeme?_newline b)
  | succ n ih =>
    intro a hn h
    cases hl : lexeme? a with
    | none =>
      rw [lexemes_of_none hl] at h ⊢
      obtain rfl : a = [] := h
      exact lexemes_of_some (lexeme?_newline b)
    | some t =>
      obtain ⟨l, r⟩ := t
      rw [lexemes_of_some hl] at h ⊢
      rw [lexemes_of_some (lexeme?_local hl b),
        ih r (by have := length_lexeme?_lt hl; omega) h]
      rfl

lemma mark_later (line d : Nat) (ls : List Lexeme) :
    mark (line + d) ls = (mark line ls).map (later d) := by
  induction ls generalizing line with
  | nil => rfl
  | cons l ls ih =>
    rw [mark, mark, Nat.add_right_comm, ih]
    cases l.kind.isToken <;> rfl

/-- the tokens of a text, a line break, and the tokens of what stands behind it -/
theorem scan_join {a : List Char} {ts : List Token} (h : scan a = .ok ts) (b : List Char) :
    ∃ us, ts = us ++ [endOfFile (1 + lineBreaks a)] ∧
      scan (a ++ '\n' :: b) = match scan b with
        | .ok vs => .ok (us ++ ⟨.newline, ['\n'], 1 + lineBreaks a⟩ ::
            vs.map (later (1 + lineBreaks a)))
        | .error f => .error (f.later (1 + lineBreaks a)) := by
  obtain ⟨hr, rfl⟩ := scan_ok h
  have ha : spellings (lexemes a).1 = a := by
    have h1 := spellings_lexemes a
    rwa [hr, List.append_nil] at h1
  refine ⟨mark 1 (lexemes a).1, by rw [ha], ?_⟩
  have hlast : 1 + lineBreaks (spellings ((lexemes a).1 ++ ⟨.newline, ['\n']⟩ :: (lexemes b).1)) =
      1 + lineBreaks (spellings (lexemes b).1) + (1 + lineBreaks a) := by
    rw [show spellings ((lexemes a).1 ++ ⟨.newline, ['\n']⟩ :: (lexemes b).1) =
        spellings (lexemes a).1 ++ (['\n'] ++ spellings (lexemes b).1) from List.flatMap_append,
      ha, lineBreaks_append, lineBreaks_append, show lineBreaks ['\n'] = 1 from rfl]
    omega
  unfold scan
  rw [lexemes_join hr]
  dsimp only
  rw [hlast]
  cases (lexemes b).2 with
  | nil =>
    have hm : mark 1 ((lexemes a).1 ++ ⟨.newline, ['\n']⟩ :: (lexemes b).1) =
        mark 1 (lexemes a).1 ++ ⟨.newline, ['\n'], 1 + lineBreaks a⟩ ::
          (mark 1 (lexemes b).1).map (later (1 + lineBreaks a)) := by
      rw [mark_append, ha, ← mark_later, Nat.add_comm 1 (1 + lineBreaks a)]
      rfl
    dsimp only
    rw [hm, List.map_append, List.append_assoc]
    rfl
  | cons c r => rfl

end Token

end Gemfile
