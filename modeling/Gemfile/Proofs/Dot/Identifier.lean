import Gemfile.Proofs.Dot.Lexing
import Mathlib.Algebra.Ring.Parity
import Mathlib.Data.List.Infix

/-!
# What is written for a name

* `Dot.written cs`       the ID that is written for a text
* `Dot.Sound cs`         the texts for which that is an ID indeed
* `Dot.Balanced w`       each angle bracket has its match, the first one the last
* `quotedRest_escapeFrom`   quotes inside are hidden, and the closing one is if an odd number of
                         backslashes stands before it
* `enclosedRest_iff`     angle brackets are read up to the match of the first one
* `lexeme?_written`      what is written for a text is read as one ID if and only if the text is sound
* `isId_written_iff`     so it is with nothing behind it
* `lex_written_iff`      and so it is within a longer text
-/

namespace Gemfile.Dot

open Text (backslashes)
open Token (Cut single row after either optionally)

/-- the ID that is written for a text; a line may end behind it -/
def written (cs : List Char) : List Char := withoutFinalBreak (identifierChars cs)

def Balanced (w : List Char) : Prop :=
  w.count '>' = w.count '<' ∧ ∀ p, p <+: w → p ≠ [] → p ≠ w → p.count '>' < p.count '<'

/-- A text in angle brackets has to be balanced, since nothing in it is escaped; a plain one must not be
a keyword with a line break behind it; and any other one must not end in an odd number of
backslashes, since that would hide the closing quote. -/
def Sound (cs : List Char) : Prop :=
  if isEnclosed cs then Balanced (withoutFinalBreak cs)
  else if isPlain cs && !isKeyword cs then isKeyword (withoutFinalBreak cs) = false
  else Even (backslashes cs)

instance (w : List Char) : Decidable (Balanced w) :=
  decidable_of_iff (w.count '>' = w.count '<' ∧ ∀ p ∈ w.inits, p ≠ [] → p ≠ w → p.count '>' < p.count '<')
    (by simp only [Balanced, List.mem_inits])

instance (cs : List Char) : Decidable (Sound cs) :=
  inferInstanceAs (Decidable (if isEnclosed cs then Balanced (withoutFinalBreak cs)
    else if isPlain cs && !isKeyword cs then isKeyword (withoutFinalBreak cs) = false
    else Even (backslashes cs)))

/-- the characters that stand behind an ID -/
def Behind (r : List Char) : Prop := ∀ c, r.head? = some c → c ∈ [' ', ']', '\n', '=']

lemma behind_nil : Behind [] := nofun

lemma behind_cons {c : Char} (h : c ∈ [' ', ']', '\n', '=']) (r : List Char) : Behind (c :: r) := by
  intro d hd
  cases hd
  exact h

lemma Behind.ends {r : List Char} (h : Behind r) : ∀ c, r.head? = some c →
    isWordChar c = false ∧ c.isDigit = false ∧ c ≠ '.' := by
  have hd : ∀ c ∈ [' ', ']', '\n', '='], isWordChar c = false ∧ c.isDigit = false ∧ c ≠ '.' :=
    Token.checked (by decide)
  exact fun c hc => hd c (h c hc)

/-! ## the line break behind a text -/

lemma withoutFinalBreak_of_ne {cs : List Char} (h : cs.getLast? ≠ some '\n') :
    withoutFinalBreak cs = cs := if_neg h

lemma withoutFinalBreak_concat (cs : List Char) : withoutFinalBreak (cs ++ ['\n']) = cs := by
  unfold withoutFinalBreak
  rw [if_pos List.getLast?_concat, List.dropLast_concat]

lemma eq_withoutFinalBreak (cs : List Char) :
    cs = withoutFinalBreak cs ∨ cs = withoutFinalBreak cs ++ ['\n'] := by
  by_cases h : cs.getLast? = some '\n'
  · obtain ⟨w, rfl⟩ := List.getLast?_eq_some_iff.mp h
    rw [withoutFinalBreak_concat]
    exact .inr rfl
  · exact .inl (withoutFinalBreak_of_ne h).symm

/-- a text in angle brackets begins with one, with or without the line break behind it -/
lemma enclosed_eq {cs : List Char} (h : isEnclosed cs = true) :
    ∃ body, withoutFinalBreak cs = '<' :: body := by
  unfold isEnclosed at h
  obtain ⟨hhead, h⟩ := Bool.and_eq_true_iff.mp h
  obtain ⟨cs, rfl⟩ := List.head?_eq_some_iff.mp (beq_iff_eq.mp hhead)
  rcases eq_withoutFinalBreak ('<' :: cs) with he | he
  · exact ⟨cs, he.symm⟩
  · cases hw : withoutFinalBreak ('<' :: cs) with
    | nil =>
      rw [hw] at he
      cases (List.cons.inj he).1
    | cons c w =>
      rw [hw] at he
      rw [(List.cons.inj he).1]
      exact ⟨w, rfl⟩

/-! ## where an ID begins -/

def begins (c : Char) : Bool :=
  isWordStart c || c.isDigit || c == '-' || c == '.' || c == '"' || c == '<'

lemma ne_of_begins {c d : Char} (h : begins c = true) (hd : begins d = false) : c ≠ d := by
  rintro rfl
  rw [h] at hd
  cases hd

lemma gap_none {c : Char} (h : begins c = true) (r : List Char) : gap (c :: r) = none := by
  have hb : isBlank c = false := by
    have hne : ∀ d ∈ [' ', '\t', '\r', '\n'], c ≠ d :=
      fun d hd => ne_of_begins h (Token.checked (p := fun d => begins d = false) (by decide) d hd)
    simp only [List.forall_mem_cons] at hne
    simp [isBlank, hne]
  refine Token.either_none (Token.after_none (ne_of_begins h (by decide)) _ r) ?_
  exact Token.either_none (Token.single_none hb r)
    (Token.after_none (ne_of_begins h (by decide)) _ r)

lemma mark_none {c : Char} (h : begins c = true) (r : List Char)
    (hr : c = '-' → ∀ d, r.head? = some d → (d == '>' || d == '-') = false) :
    mark (c :: r) = none := by
  have hm : isMark c = false := by
    have hne : ∀ d ∈ ['{', '}', '[', ']', '=', ';', ',', ':', '+'], c ≠ d :=
      fun d hd => ne_of_begins h (Token.checked (p := fun d => begins d = false) (by decide) d hd)
    simp only [List.forall_mem_cons] at hne
    simp [isMark, hne]
  refine Token.either_none (Token.single_none hm r) ?_
  by_cases hc : c = '-'
  · rw [hc, Token.after_cons, if_pos rfl]
    cases r with
    | nil => rfl
    | cons d r =>
      rw [Token.single_none (hr hc d rfl)]
      rfl
  · exact Token.after_none hc _ r

lemma lexeme?_identity {cs : List Char} (hg : gap cs = none) (hm : mark cs = none) :
    lexeme? cs = (identity cs).map fun t => (⟨if isKeyword t.1 then .keyword else .id, t.1⟩, t.2) := by
  unfold lexeme?
  rw [hg, hm]

/-- every keyword begins with one of these letters -/
lemma isKeyword_false {c : Char} (h : c.toLower ∉ ['n', 'e', 'g', 'd', 's']) (cs : List Char) :
    isKeyword (c :: cs) = false := by
  rw [← Bool.not_eq_true]
  intro hk
  have hk : String.ofList (c.toLower :: cs.map Char.toLower) ∈ keywords := List.contains_iff_mem.mp hk
  have hd : ∀ k ∈ keywords, k.toList.head? ∈ ['n', 'e', 'g', 'd', 's'].map some := by
    unfold keywords
    simp only [List.forall_mem_cons]
    decide
  have hd := hd _ hk
  rw [String.toList_ofList] at hd
  exact h ((List.mem_map_of_injective (Option.some_injective _)).mp hd)

/-! ## names and numbers -/

lemma row_some? {p : Char → Bool} {w r : List Char} (h : ∀ c ∈ w, p c = true)
    (hr : ∀ c, r.head? = some c → p c = false) : some? p (w ++ r) = some (w, r) := by
  unfold some?
  rw [List.takeWhile_append_of_pos h, List.dropWhile_append_of_pos h, Text.takeWhile_of_head hr,
    Text.dropWhile_of_head hr, List.append_nil]

lemma word_append {w r : List Char} (hw : isName w = true) (hr : Behind r) :
    word (w ++ r) = some (w, r) := by
  cases w with
  | nil => cases hw
  | cons c w =>
    obtain ⟨hc, hw⟩ := Bool.and_eq_true_iff.mp hw
    have hc : isWordStart c = true := by
      unfold isWordStart
      rw [hc, Bool.true_or]
    have hw : ∀ d ∈ w, isWordChar d = true := by
      intro d hd
      unfold isWordChar
      rw [List.all_eq_true.mp hw d hd, Bool.true_or]
    have hs := row_some? hw fun c hc => (hr.ends c hc).1
    unfold some? at hs
    obtain ⟨h1, h2⟩ := Prod.mk.inj (Option.some.inj hs)
    show (if isWordStart c then some (c :: (w ++ r).takeWhile isWordChar,
      (w ++ r).dropWhile isWordChar) else none) = _
    rw [if_pos hc, h1, h2]

section
variable {whole fraction r : List Char}

/-- digits begin with no point -/
lemma after_point_digits (hne : whole ≠ []) (hw : ∀ c ∈ whole, c.isDigit = true) (x : List Char) :
    after '.' (row Char.isDigit) (whole ++ x) = none := by
  obtain ⟨c, whole, rfl⟩ := List.exists_cons_of_ne_nil hne
  refine Token.after_none ?_ _ _
  rintro rfl
  exact absurd (hw '.' List.mem_cons_self) (by decide)

lemma unsigned_whole (hne : whole ≠ []) (hw : ∀ c ∈ whole, c.isDigit = true) (hr : Behind r) :
    unsigned (whole ++ r) = some (whole, r) := by
  unfold unsigned either
  rw [after_point_digits hne hw]
  refine Token.optionally_first (Token.row_append hne hw fun c hc => (hr.ends c hc).2.1) ?_
  cases r with
  | nil => rfl
  | cons c r => exact Token.after_none (hr.ends c rfl).2.2 _ r

lemma unsigned_fraction (hne : fraction ≠ []) (hf : ∀ c ∈ fraction, c.isDigit = true)
    (hr : Behind r) : unsigned ('.' :: fraction ++ r) = some ('.' :: fraction, r) := by
  unfold unsigned either
  rw [List.cons_append, Token.after_cons, if_pos rfl,
    Token.row_append hne hf fun c hc => (hr.ends c hc).2.1]
  rfl

lemma unsigned_both (hne : whole ≠ []) (hw : ∀ c ∈ whole, c.isDigit = true)
    (hf : ∀ c ∈ fraction, c.isDigit = true) (hr : Behind r) :
    unsigned (whole ++ '.' :: fraction ++ r) = some (whole ++ '.' :: fraction, r) := by
  have hrow : row Char.isDigit (whole ++ '.' :: fraction ++ r) =
      some (whole, '.' :: fraction ++ r) := by
    rw [List.append_assoc]
    refine Token.row_append hne hw fun c hc => ?_
    cases hc
    rfl
  have hfraction : after '.' (some? Char.isDigit) ('.' :: fraction ++ r) =
      some ('.' :: fraction, r) := by
    rw [List.cons_append, Token.after_cons, if_pos rfl,
      row_some? hf fun c hc => (hr.ends c hc).2.1]
    rfl
  unfold unsigned either
  rw [List.append_assoc, after_point_digits hne hw, ← List.append_assoc]
  exact Token.optionally_both hrow hfraction

end

lemma unsigned_append {w r : List Char} (hw : isUnsigned w = true) (hr : Behind r) :
    unsigned (w ++ r) = some (w, r) := by
  have hsplit : w.takeWhile Char.isDigit ++ w.dropWhile Char.isDigit = w :=
    List.takeWhile_append_dropWhile
  have hwhole : ∀ c ∈ w.takeWhile Char.isDigit, c.isDigit = true := fun c hc =>
    List.mem_takeWhile_imp hc
  unfold isUnsigned at hw
  generalize w.takeWhile Char.isDigit = whole at hsplit hwhole hw
  generalize w.dropWhile Char.isDigit = rest at hsplit hw
  subst hsplit
  dsimp only at hw
  split at hw
  · have hne : whole ≠ [] := by
      rintro rfl
      cases hw
    rw [List.append_nil]
    exact unsigned_whole hne hwhole hr
  · next fraction =>
    obtain ⟨hf, hne⟩ := Bool.and_eq_true_iff.mp hw
    have hf : ∀ c ∈ fraction, c.isDigit = true := List.all_eq_true.mp hf
    by_cases hempty : whole = []
    · subst hempty
      have hne : fraction ≠ [] := by
        rintro rfl
        cases hne
      exact unsigned_fraction hne hf hr
    · exact unsigned_both hempty hwhole hf hr
  · cases hw

lemma isUnsigned_head {w : List Char} (h : isUnsigned w = true) :
    ∃ c cs, w = c :: cs ∧ (c.isDigit = true ∨ c = '.') := by
  cases w with
  | nil => cases h
  | cons c cs =>
    refine ⟨c, cs, rfl, ?_⟩
    by_cases hc : c.isDigit = true
    · exact .inl hc
    · unfold isUnsigned at h
      rw [List.dropWhile_cons_of_neg hc] at h
      by_cases hp : c = '.'
      · exact .inr hp
      · revert h
        simp [hp]

lemma not_wordStart {c : Char} (h : c.isDigit = true ∨ c = '.' ∨ c = '-') : isWordStart c = false := by
  have hlt : c.toNat < 128 ∧ c.isAlpha = false ∧ c ≠ '_' := by
    rcases h with h | rfl | rfl
    · have hr := Text.range_of_isDigit h
      refine ⟨by omega, ?_, ?_⟩
      · rw [← Bool.not_eq_true]
        intro ha
        have := Text.range_of_isAlpha ha
        omega
      · rintro rfl
        cases h
    · decide
    · decide
  unfold isWordStart Token.isNameStart
  rw [hlt.2.1, beq_eq_false_iff_ne.mpr hlt.2.2, decide_eq_false (by omega)]
  rfl

lemma identity_number {c : Char} (h : c.isDigit = true ∨ c = '.' ∨ c = '-') {cs : List Char}
    {t : List Char × List Char} (hn : number (c :: cs) = some t) : identity (c :: cs) = some t := by
  have hw : word (c :: cs) = none := if_neg (by simp [not_wordStart h])
  unfold identity either
  rw [hw]
  dsimp only
  rw [hn]

/-- a number as it is recognized is cut off as a whole -/
lemma number_append {w r : List Char} (hw : isNumber w = true) (hr : Behind r) :
    ∃ c cs, w = c :: cs ∧ (c.isDigit = true ∨ c = '.' ∨ c = '-') ∧
      (c = '-' → ∀ d, cs.head? = some d → (d == '>' || d == '-') = false) ∧
      number (w ++ r) = some (w, r) := by
  unfold isNumber at hw
  split at hw
  · next cs =>
    obtain ⟨d, ds, rfl, hd⟩ := isUnsigned_head hw
    refine ⟨'-', d :: ds, rfl, .inr (.inr rfl), fun _ e he => ?_, ?_⟩
    · cases he
      rcases hd with hd | rfl
      · have := Text.range_of_isDigit hd
        rw [Bool.or_eq_false_iff, beq_eq_false_iff_ne, beq_eq_false_iff_ne]
        constructor
        · rintro rfl
          cases hd
        · rintro rfl
          cases hd
      · rfl
    · unfold number either
      rw [List.cons_append, Token.after_cons, if_pos rfl, unsigned_append hw hr]
      rfl
  · next hne =>
    obtain ⟨d, ds, rfl, hd⟩ := isUnsigned_head hw
    have hm : d ≠ '-' := fun e => hne ds (e ▸ rfl)
    refine ⟨d, ds, rfl, hd.imp_right .inl, fun e => absurd e hm, ?_⟩
    unfold number either
    rw [List.cons_append, Token.after_none hm, ← List.cons_append, unsigned_append hw hr]

/-- a name or a number is one lexeme -/
lemma lexeme?_plain {cs r : List Char} (h : isPlain cs = true) (hr : Behind r) :
    lexeme? (withoutFinalBreak cs ++ r) =
      some (⟨if isKeyword (withoutFinalBreak cs) then .keyword else .id, withoutFinalBreak cs⟩, r) := by
  unfold isPlain at h
  dsimp only at h
  generalize withoutFinalBreak cs = w at h
  rcases Bool.or_eq_true_iff.mp h with h | h
  · have hi : identity (w ++ r) = some (w, r) := by
      unfold identity either
      rw [word_append h hr]
    obtain ⟨c, w, rfl⟩ : ∃ c v, w = c :: v := by
      cases w with
      | nil => cases h
      | cons c v => exact ⟨c, v, rfl⟩
    have hs : Token.isNameStart c = true := (Bool.and_eq_true_iff.mp h).1
    have hc : begins c = true := by
      unfold begins isWordStart
      rw [hs]
      rfl
    have hne : c ≠ '-' := by
      rintro rfl
      exact absurd hs (by decide)
    rw [List.cons_append] at hi ⊢
    rw [lexeme?_identity (gap_none hc _) (mark_none hc _ fun e => absurd e hne), hi]
    rfl
  · obtain ⟨c, w, rfl, hc, hm, hn⟩ := number_append h hr
    have hb : begins c = true := by
      unfold begins
      rcases hc with hc | rfl | rfl
      · rw [hc]
        simp
      · decide
      · decide
    have hhead : c = '-' → ∀ d, (w ++ r).head? = some d → (d == '>' || d == '-') = false := by
      intro e d hd
      cases w with
      | nil =>
        subst e
        exact absurd h (by decide)
      | cons d' w => exact hm e d hd
    rw [List.cons_append] at hn ⊢
    rw [lexeme?_identity (gap_none hb _) (mark_none hb _ hhead), identity_number hc hn]
    rfl

/-! ## texts in quotes -/

/-- what is cut off behind some characters, with them -/
def ahead (w : List Char) (cut : Cut) : Cut := cut.map fun t => (w ++ t.1, t.2)

lemma ahead_append (v w : List Char) (cut : Cut) : ahead v (ahead w cut) = ahead (v ++ w) cut := by
  unfold ahead
  rw [Option.map_map]
  refine congrArg (fun f => cut.map f) (funext fun t => ?_)
  simp [List.append_assoc]

/-- the quote behind `w` closes a text, or is a part of it -/
def closedBy (E : Prop) [Decidable E] (w r : List Char) : Cut :=
  if E then some (w ++ ['"'], r) else ahead (w ++ ['"']) (quotedRest r)

lemma ahead_closedBy (E : Prop) [Decidable E] (v w r : List Char) :
    ahead v (closedBy E w r) = closedBy E (v ++ w) r := by
  unfold closedBy
  by_cases h : E
  · rw [if_pos h, if_pos h, List.append_assoc]
    rfl
  · rw [if_neg h, if_neg h, ahead_append, List.append_assoc]

lemma quotedRest_ahead_backslash (c : Char) (r : List Char) :
    quotedRest ('\\' :: c :: r) = ahead ['\\', c] (quotedRest r) := quotedRest_backslash c r

lemma quotedRest_ahead {c : Char} (hq : c ≠ '"') (hb : c ≠ '\\') (r : List Char) :
    quotedRest (c :: r) = ahead [c] (quotedRest r) := quotedRest_of_ne hq hb r

/-- backslashes are taken in pairs -/
lemma quotedRest_pairs (k : Nat) (r : List Char) :
    quotedRest (List.replicate (2 * k) '\\' ++ r) =
      ahead (List.replicate (2 * k) '\\') (quotedRest r) := by
  induction k with
  | zero => exact (Option.map_id' (x := quotedRest r)).symm
  | succ k ih =>
    have h : List.replicate (2 * (k + 1)) '\\' = '\\' :: '\\' :: List.replicate (2 * k) '\\' := rfl
    rw [h, List.cons_append, List.cons_append, quotedRest_ahead_backslash, ih, ahead_append]
    rfl

/-- and the last one of an odd number takes the character behind it along -/
lemma quotedRest_odd (k : Nat) (c : Char) (r : List Char) :
    quotedRest (List.replicate (2 * k + 1) '\\' ++ c :: r) =
      ahead (List.replicate (2 * k + 1) '\\' ++ [c]) (quotedRest r) := by
  rw [List.replicate_succ', List.append_assoc, quotedRest_pairs, List.singleton_append,
    quotedRest_ahead_backslash, ahead_append, List.append_assoc]
  rfl

/-- so what stands before a character that is no quote does not matter -/
lemma quotedRest_row {c : Char} (hq : c ≠ '"') (hb : c ≠ '\\') (run : Nat) (r : List Char) :
    quotedRest (List.replicate run '\\' ++ c :: r) =
      ahead (List.replicate run '\\' ++ [c]) (quotedRest r) := by
  obtain ⟨k, rfl | rfl⟩ := Nat.even_or_odd' run
  · rw [quotedRest_pairs, quotedRest_ahead hq hb, ahead_append]
  · exact quotedRest_odd k c r

lemma backslashes_append {c : Char} (h : c ≠ '\\') (a b : List Char) :
    backslashes (a ++ c :: b) = backslashes b := by
  induction b using List.reverseRecOn with
  | nil => rw [Text.backslashes_of_ne h, Text.backslashes_nil]
  | append_singleton b d ih =>
    rw [← List.cons_append, ← List.append_assoc]
    by_cases hd : d = '\\'
    · rw [hd, Text.backslashes_backslash, Text.backslashes_backslash, ih]
    · rw [Text.backslashes_of_ne hd, Text.backslashes_of_ne hd]

lemma backslashes_replicate (n : Nat) : backslashes (List.replicate n '\\') = n := by
  induction n with
  | zero => rfl
  | succ n ih => rw [List.replicate_succ', Text.backslashes_backslash, ih]

lemma escapeFrom_backslash (run : Nat) (cs : List Char) :
    escapeFrom run ('\\' :: cs) = escapeFrom (run + 1) cs := if_pos rfl

/-- the backslashes before a quote come in pairs, and one of its own -/
lemma escapeFrom_quote (run : Nat) (cs : List Char) :
    escapeFrom run ('"' :: cs) =
      List.replicate (2 * (run / 2) + 1) '\\' ++ ['"'] ++ escapeFrom 0 cs := by
  rw [Nat.mul_comm, List.append_assoc]
  rfl

lemma escapeFrom_of_ne {c : Char} (hq : c ≠ '"') (hb : c ≠ '\\') (run : Nat) (cs : List Char) :
    escapeFrom run (c :: cs) = List.replicate run '\\' ++ [c] ++ escapeFrom 0 cs := by
  rw [List.append_assoc]
  exact (if_neg hb).trans (if_neg hq)

/-- `run` backslashes that are not written yet stand in front -/
theorem quotedRest_escapeFrom (run : Nat) (cs r : List Char) :
    quotedRest (escapeFrom run cs ++ '"' :: r) =
      closedBy (Even (backslashes (List.replicate run '\\' ++ cs))) (escapeFrom run cs) r := by
  induction cs generalizing run with
  | nil =>
    rw [List.append_nil, backslashes_replicate]
    show quotedRest (List.replicate run '\\' ++ '"' :: r) = closedBy _ (List.replicate run '\\') r
    obtain ⟨k, rfl | rfl⟩ := Nat.even_or_odd' run
    · rw [quotedRest_pairs, quotedRest_quote, closedBy, if_pos (even_two_mul k)]
      rfl
    · have hodd : ¬ Even (2 * k + 1) := by simp
      rw [quotedRest_odd, closedBy, if_neg hodd]
  | cons c cs ih =>
    by_cases hb : c = '\\'
    · have hs : List.replicate run '\\' ++ c :: cs = List.replicate (run + 1) '\\' ++ cs := by
        rw [hb, List.replicate_succ', List.append_assoc]
        rfl
      rw [hs, hb, escapeFrom_backslash, ih]
    · have ih := ih 0
      rw [List.replicate_zero, List.nil_append] at ih
      rw [backslashes_append hb]
      by_cases hq : c = '"'
      · rw [hq, escapeFrom_quote, List.append_assoc, List.append_assoc, List.singleton_append,
          quotedRest_odd, ih, ahead_closedBy]
      · rw [escapeFrom_of_ne hq hb, List.append_assoc, List.append_assoc, List.singleton_append,
          quotedRest_row hq hb, ih, ahead_closedBy]

lemma closedBy_iff {E : Prop} [Decidable E] {w r x : List Char} :
    closedBy E w r = some (w ++ ['"'], x) ↔ E ∧ x = r := by
  unfold closedBy
  by_cases h : E
  · rw [if_pos h, Option.some.injEq, Prod.mk.injEq, and_iff_right rfl, and_iff_right h]
    exact eq_comm
  · rw [if_neg h]
    refine iff_of_false (fun he => ?_) fun hx => h hx.1
    obtain ⟨t, ht, e⟩ := Option.map_eq_some_iff.mp he
    exact (faithful_quotedRest r t.1 t.2 ht).2 (List.append_right_eq_self.mp (Prod.mk.inj e).1)

/-! ## texts in angle brackets -/

/-- the first of some brackets, with `depth` others open behind it, is closed at the end of `w` -/
def Closes (depth : Nat) (w : List Char) : Prop :=
  w.count '>' = w.count '<' + depth + 1 ∧
    ∀ p, p <+: w → p ≠ w → p.count '>' ≤ p.count '<' + depth

lemma forall_prefix_cons {P : List Char → Prop} {c : Char} {w : List Char} :
    (∀ p, p <+: c :: w → p ≠ c :: w → P p) ↔ P [] ∧ ∀ p, p <+: w → p ≠ w → P (c :: p) := by
  constructor
  · intro h
    refine ⟨h [] List.nil_prefix (List.cons_ne_nil _ _).symm, fun p hp hne => ?_⟩
    exact h (c :: p) ((List.prefix_cons_inj c).mpr hp) fun e => hne (List.cons.inj e).2
  · rintro ⟨h, h'⟩ p hp hne
    cases p with
    | nil => exact h
    | cons d p =>
      obtain ⟨rfl, hpw⟩ := List.cons_prefix_cons.mp hp
      exact h' p hpw fun e => hne (e ▸ rfl)

lemma closes_open {depth : Nat} {w : List Char} : Closes depth ('<' :: w) ↔ Closes (depth + 1) w := by
  unfold Closes
  rw [forall_prefix_cons]
  simp only [List.count_nil, List.count_cons]
  simp [Nat.add_assoc, Nat.add_comm 1]

lemma closes_close {depth : Nat} {w : List Char} :
    Closes (depth + 1) ('>' :: w) ↔ Closes depth w := by
  unfold Closes
  rw [forall_prefix_cons]
  simp only [List.count_nil, List.count_cons]
  simp [← Nat.add_assoc]

lemma closes_last {w : List Char} : Closes 0 ('>' :: w) ↔ w = [] := by
  unfold Closes
  rw [forall_prefix_cons]
  constructor
  · rintro ⟨-, -, h⟩
    by_contra hw
    have := h [] List.nil_prefix (Ne.symm hw)
    simp at this
  · rintro rfl
    refine ⟨rfl, Nat.zero_le _, fun p hp hne => ?_⟩
    exact absurd (List.prefix_nil.mp hp) hne

lemma closes_other {depth : Nat} {c : Char} (ho : c ≠ '<') (hc : c ≠ '>') {w : List Char} :
    Closes depth (c :: w) ↔ Closes depth w := by
  unfold Closes
  rw [forall_prefix_cons]
  simp [ho, hc]

lemma map_cons_eq {cut : Cut} {c : Char} {w x : List Char} :
    cut.map (fun t => (c :: t.1, t.2)) = some (c :: w, x) ↔ cut = some (w, x) := by
  cases cut with
  | none => simp
  | some t => simp [Prod.ext_iff]

/-- angle brackets are read up to the match of the first one -/
theorem enclosedRest_iff {depth : Nat} {w r x : List Char} :
    enclosedRest depth (w ++ r) = some (w, x) ↔ Closes depth w ∧ x = r := by
  induction w generalizing depth with
  | nil =>
    refine iff_of_false (fun h => (faithful_enclosedRest depth _ _ _ h).2 rfl) ?_
    rintro ⟨⟨h, -⟩, -⟩
    simp at h
  | cons c w ih =>
    rw [List.cons_append, enclosedRest.eq_def]
    dsimp only
    by_cases ho : c = '<'
    · rw [if_pos ho, map_cons_eq, ih, ho, closes_open]
    · by_cases hc : c = '>'
      · rw [if_neg ho, if_pos hc, hc]
        cases depth with
        | zero =>
          rw [closes_last]
          dsimp only
          rw [Option.some.injEq, Prod.mk.injEq, List.cons.injEq, and_iff_right rfl]
          constructor
          · rintro ⟨h, h'⟩
            subst h
            exact ⟨rfl, h'.symm⟩
          · rintro ⟨rfl, rfl⟩
            exact ⟨rfl, rfl⟩
        | succ depth => rw [map_cons_eq, ih, closes_close]
      · rw [if_neg ho, if_neg hc, map_cons_eq, ih, closes_other ho hc]

lemma balanced_iff {w : List Char} : Balanced ('<' :: w) ↔ Closes 0 w := by
  have h : (∀ p, p <+: '<' :: w → p ≠ '<' :: w → p ≠ [] → p.count '>' < p.count '<') ↔
      ∀ p, p <+: w → p ≠ w → p.count '>' ≤ p.count '<' + 0 := by
    rw [forall_prefix_cons, and_iff_right fun h => absurd rfl h]
    refine forall_congr' fun p => imp_congr_right fun _ => imp_congr_right fun _ => ?_
    rw [List.count_cons_of_ne (by decide), List.count_cons_self]
    exact ⟨fun h => Nat.le_of_lt_succ (h (List.cons_ne_nil _ _)), fun h _ => Nat.lt_succ_of_le h⟩
  unfold Balanced Closes
  rw [← h]
  refine and_congr ?_ ?_
  · simp
  · exact ⟨fun h p hp hne h0 => h p hp h0 hne, fun h p hp h0 hne => h p hp hne h0⟩

/-! ## what is written -/

/-- what is neither a name nor a number stands between two marks -/
lemma identity_between {c : Char} (hw : isWordStart c = false) (hd : c.isDigit = false) (hm : c ≠ '-')
    (hp : c ≠ '.') (r : List Char) :
    identity (c :: r) = either (after '"' quotedRest) (after '<' (enclosedRest 0)) (c :: r) := by
  have h1 : word (c :: r) = none := if_neg (by simp [hw])
  have h2 : unsigned (c :: r) = none :=
    Token.either_none (Token.after_none hp _ r) (Token.optionally_none (Token.row_none hd r) _)
  have h3 : number (c :: r) = none := Token.either_none (Token.after_none hm _ r) h2
  unfold identity
  rw [either, h1]
  dsimp only
  rw [either, h3]

/-- a text between marks is an ID, as no keyword begins with one -/
lemma lexeme?_between {c : Char} (hb : begins c = true) (hm : c ≠ '-')
    (hk : c.toLower ∉ ['n', 'e', 'g', 'd', 's']) {rest : List Char → Cut} {w : List Char}
    (hi : identity (c :: w) = (rest w).map fun t => (c :: t.1, t.2)) :
    lexeme? (c :: w) = (rest w).map fun t => (⟨.id, c :: t.1⟩, t.2) := by
  rw [lexeme?_identity (gap_none hb w) (mark_none hb w fun e => absurd e hm), hi, Option.map_map]
  refine congrArg (fun f => (rest w).map f) (funext fun t => ?_)
  show (Lexeme.mk (if isKeyword (c :: t.1) then .keyword else .id) _, t.2) = _
  rw [isKeyword_false hk]
  rfl

lemma lexeme?_quote (w : List Char) :
    lexeme? ('"' :: w) = (quotedRest w).map fun t => (⟨.id, '"' :: t.1⟩, t.2) := by
  refine lexeme?_between (by decide) (by decide) (by decide) ?_
  rw [identity_between (by decide) (by decide) (by decide) (by decide), either, Token.after_cons,
    if_pos rfl]
  cases h : quotedRest w with
  | some t => rfl
  | none => exact Token.after_none (by decide) _ w

lemma lexeme?_angle (w : List Char) :
    lexeme? ('<' :: w) = (enclosedRest 0 w).map fun t => (⟨.id, '<' :: t.1⟩, t.2) := by
  refine lexeme?_between (by decide) (by decide) (by decide) ?_
  rw [identity_between (by decide) (by decide) (by decide) (by decide), either,
    Token.after_none (by decide), Token.after_cons, if_pos rfl]

lemma map_id_eq {cut : Cut} {c : Char} {w x : List Char} :
    cut.map (fun t => ((⟨.id, c :: t.1⟩, t.2) : Lexeme × List Char)) = some (⟨.id, c :: w⟩, x) ↔
      cut = some (w, x) := by
  cases cut with
  | none => simp
  | some t => simp [Prod.ext_iff]

lemma written_cases (cs : List Char) :
    (∃ body, written cs = '<' :: body ∧ (Sound cs ↔ Closes 0 body)) ∨
    (isPlain cs = true ∧ written cs = withoutFinalBreak cs ∧
      (Sound cs ↔ isKeyword (withoutFinalBreak cs) = false)) ∨
    written cs = '"' :: (escape cs ++ ['"']) ∧ (Sound cs ↔ Even (backslashes cs)) := by
  unfold written identifierChars Sound
  by_cases he : isEnclosed cs = true
  · obtain ⟨body, hb⟩ := enclosed_eq he
    rw [if_pos he, if_pos he, hb]
    exact .inl ⟨body, rfl, balanced_iff⟩
  · rw [if_neg he, if_neg he]
    by_cases hp : (isPlain cs && !isKeyword cs) = true
    · rw [if_pos hp, if_pos hp]
      exact .inr (.inl ⟨(Bool.and_eq_true_iff.mp hp).1, rfl, Iff.rfl⟩)
    · rw [if_neg hp, if_neg hp]
      refine .inr (.inr ⟨withoutFinalBreak_of_ne ?_, Iff.rfl⟩)
      rw [List.getLast?_concat]
      decide

/-- what is written for a text is read as one ID if and only if the text is sound -/
theorem lexeme?_written {cs r x : List Char} (hr : Behind r) :
    lexeme? (written cs ++ r) = some (⟨.id, written cs⟩, x) ↔ Sound cs ∧ x = r := by
  rcases written_cases cs with ⟨body, hw, hs⟩ | ⟨hp, hw, hs⟩ | ⟨hw, hs⟩
  · rw [hw, hs, List.cons_append, lexeme?_angle, map_id_eq, enclosedRest_iff]
  · rw [hw, hs, lexeme?_plain hp hr, Option.some.injEq, Prod.mk.injEq, Lexeme.mk.injEq,
      and_iff_left rfl]
    refine and_congr ?_ eq_comm
    cases isKeyword (withoutFinalBreak cs) <;> simp
  · rw [hw, hs, List.cons_append, List.append_assoc, lexeme?_quote, map_id_eq]
    exact (quotedRest_escapeFrom 0 cs r) ▸ closedBy_iff

/-- it is no gap in any case -/
lemma lexeme?_written_kind {cs r x : List Char} (hr : Behind r) {l : Lexeme}
    (h : lexeme? (written cs ++ r) = some (l, x)) : l.kind ≠ .gap := by
  rcases written_cases cs with ⟨body, hw, -⟩ | ⟨hp, hw, -⟩ | ⟨hw, -⟩
  · rw [hw, List.cons_append, lexeme?_angle] at h
    obtain ⟨t, -, e⟩ := Option.map_eq_some_iff.mp h
    rw [← (Prod.mk.inj e).1]
    exact nofun
  · rw [hw, lexeme?_plain hp hr] at h
    rw [← (Prod.mk.inj (Option.some.inj h)).1]
    cases isKeyword (withoutFinalBreak cs) <;> exact nofun
  · rw [hw, List.cons_append, lexeme?_quote] at h
    obtain ⟨t, -, e⟩ := Option.map_eq_some_iff.mp h
    rw [← (Prod.mk.inj e).1]
    exact nofun

theorem isId_written_iff (cs : List Char) : IsId (written cs) ↔ Sound cs := by
  have h : lexeme? (written cs ++ []) = some (⟨.id, written cs⟩, []) ↔ Sound cs ∧ [] = [] :=
    lexeme?_written behind_nil
  rw [List.append_nil, and_iff_left rfl] at h
  exact h

/-- so it is within a longer text -/
theorem lex_written_iff {cs r : List Char} (hr : Behind r) (us : List Lexeme) :
    lex (written cs ++ r) = some (⟨.id, written cs⟩ :: us) ↔ Sound cs ∧ lex r = some us := by
  cases h : lexeme? (written cs ++ r) with
  | none =>
    refine iff_of_false (fun hl => ?_) fun hs => ?_
    · by_cases hne : written cs ++ r = []
      · rw [hne, lex_nil] at hl
        cases hl
      · rw [lex_of_none hne h] at hl
        cases hl
    · rw [(lexeme?_written hr).mpr ⟨hs.1, rfl⟩] at h
      cases h
  | some t =>
    obtain ⟨l, x⟩ := t
    rw [lex_of_token h (lexeme?_written_kind hr h), Option.map_eq_some_iff]
    constructor
    · rintro ⟨vs, hv, e⟩
      obtain ⟨rfl, rfl⟩ := List.cons.inj e
      obtain ⟨hs, rfl⟩ := (lexeme?_written hr).mp h
      exact ⟨hs, hv⟩
    · rintro ⟨hs, hl⟩
      rw [(lexeme?_written hr).mpr ⟨hs, rfl⟩] at h
      cases h
      exact ⟨us, hl, rfl⟩

end Gemfile.Dot
