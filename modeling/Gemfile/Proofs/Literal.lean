import Gemfile.Proofs.Rendering.Lexing
import Gemfile.Value.OfTokens
import Mathlib.Algebra.Group.Nat.Even

/-!
# Literals between double quotes

A literal is decoded by two passes: one looks for a hash sign with a brace behind an even number of
backslashes, the other one takes each backslash together with the character behind it.  Both agree
with one reading from left to right.

* `readDouble cs`              the characters of `cs` one by one, and which of them a backslash hides
* `unescapeDouble_eq`          the second pass yields what they stand for
* `interpolates_iff`           the first pass finds a hash sign and a brace that both are not hidden,
* `interpolates_iff_even`      which is the same as behind an even number of backslashes
* `doubleQuoted_of_scan`       what scanned literals between double quotes look like
* `ofTokens_doubleQuoted`      they are read as the reading says, and every text is read back from one
-/

namespace Gemfile.Token

/-- a character of a literal: one by itself, or one that a backslash hides -/
inductive Piece where
  | plain (c : Char)
  | hidden (c : Char)
deriving DecidableEq

/-- a literal from left to right: a backslash takes the character behind it along -/
def readDouble : List Char → List Piece
  | [] => []
  | [c] => [.plain c]
  | c :: d :: r => if c = '\\' then .hidden d :: readDouble r else .plain c :: readDouble (d :: r)

def Piece.char : Piece → Char
  | .plain c => c
  | .hidden 'n' => '\n'
  | .hidden 't' => '\t'
  | .hidden 'r' => '\r'
  | .hidden 's' => ' '
  | .hidden '0' => '\x00'
  | .hidden 'e' => '\x1b'
  | .hidden c => c

/-- a hash sign and a brace side by side, neither of them hidden -/
def Interpolation (ps : List Piece) : Prop := [.plain '#', .plain '{'] <:+: ps

/-! ## what is read -/

lemma readDouble_backslash (c : Char) (r : List Char) :
    readDouble ('\\' :: c :: r) = .hidden c :: readDouble r := by
  rw [readDouble, if_pos rfl]

lemma readDouble_of_ne {c : Char} (h : c ≠ '\\') (r : List Char) :
    readDouble (c :: r) = .plain c :: readDouble r := by
  cases r with
  | nil => rw [readDouble, readDouble]
  | cons d r => rw [readDouble, if_neg h]

lemma escaped_eq (c : Char) : escaped c = (Piece.hidden c).char := by
  by_cases h : c ∈ ['n', 't', 'r', 's', '0', 'e']
  · have hd : ∀ c ∈ ['n', 't', 'r', 's', '0', 'e'], escaped c = (Piece.hidden c).char :=
      checked (by decide)
    exact hd c h
  · simp only [List.mem_cons, List.not_mem_nil, or_false, not_or] at h
    obtain ⟨h1, h2, h3, h4, h5, h6⟩ := h
    have hl : escapes.lookup c = none := by
      simp [escapes, List.lookup_cons, beq_eq_false_iff_ne.mpr, h1, h2, h3, h4, h5, h6]
    unfold escaped
    rw [hl, Piece.char]
    · rfl
    all_goals assumption

/-- every backslash is taken together with the character behind it -/
theorem unescapeDouble_eq (cs : List Char) : unescapeDouble cs = (readDouble cs).map Piece.char := by
  fun_induction readDouble cs with
  | case1 => exact unescapeDouble_nil
  | case2 c => rw [unescapeDouble]; rfl
  | case3 d r ih => rw [unescapeDouble, if_pos rfl, ih, escaped_eq]; rfl
  | case4 c d r hc ih => rw [unescapeDouble, if_neg hc, ih]; rfl

/-! ## interpolation -/

lemma interpolation_cons (p : Piece) (ps : List Piece) :
    Interpolation (p :: ps) ↔ p = .plain '#' ∧ ps.head? = some (.plain '{') ∨ Interpolation ps := by
  unfold Interpolation
  rw [List.infix_cons_iff, List.cons_prefix_cons]
  cases ps with
  | nil => simp
  | cons q ps => simp [List.cons_prefix_cons, eq_comm]

lemma interpolation_nil : ¬ Interpolation [] := by
  unfold Interpolation
  simp

lemma head_readDouble (c : Char) (r : List Char) :
    (readDouble (c :: r)).head? = some (.plain '{') ↔ c = '{' := by
  by_cases hc : c = '\\'
  · subst hc
    cases r with
    | nil => simp [readDouble]
    | cons d r => simp [readDouble_backslash]
  · simp [readDouble_of_ne hc]

/-- a backslash changes the parity, and any other character ends the row of backslashes -/
lemma interpolatesFrom_of_ne {c : Char} (h : c ≠ '\\') (odd : Bool) (r : List Char) :
    interpolatesFrom odd (c :: r) =
      ((!odd && c == '#' && r.head? == some '{') || interpolatesFrom false r) := by
  by_cases hc : c = '#'
  · subst hc
    simp [interpolatesFrom]
  · rw [interpolatesFrom]
    · simp [hc]
    · exact h
    · exact hc

lemma interpolatesFrom_hidden (c : Char) (r : List Char) :
    interpolatesFrom true (c :: r) = interpolatesFrom false r := by
  by_cases hc : c = '\\'
  · subst hc
    rfl
  · rw [interpolatesFrom_of_ne hc]
    simp

theorem interpolates_iff (cs : List Char) :
    interpolates cs = true ↔ Interpolation (readDouble cs) := by
  unfold interpolates
  fun_induction readDouble cs with
  | case1 => simp [interpolatesFrom, interpolation_nil]
  | case2 c =>
    by_cases hc : c = '\\'
    · subst hc
      simp [interpolatesFrom, interpolation_cons, interpolation_nil]
    · simp [interpolatesFrom_of_ne hc, interpolatesFrom, interpolation_cons, interpolation_nil]
  | case3 d r ih =>
    show interpolatesFrom true (d :: r) = true ↔ _
    rw [interpolatesFrom_hidden, interpolation_cons, ih]
    simp
  | case4 c d r hc ih =>
    rw [interpolatesFrom_of_ne hc, interpolation_cons, head_readDouble, Bool.or_eq_true, ih]
    simp

/-- what stands before the text decides at which backslashes it begins -/
lemma interpolatesFrom_iff (before cs : List Char) :
    interpolatesFrom (!decide (Even (Text.backslashes before))) cs = true ↔
      ∃ a b, cs = a ++ '#' :: '{' :: b ∧ Even (Text.backslashes (before ++ a)) := by
  induction cs generalizing before with
  | nil => simp [interpolatesFrom]
  | cons c cs ih =>
    have split : (∃ a b, c :: cs = a ++ '#' :: '{' :: b ∧ Even (Text.backslashes (before ++ a))) ↔
        (c = '#' ∧ cs.head? = some '{' ∧ Even (Text.backslashes before)) ∨
          ∃ a b, cs = a ++ '#' :: '{' :: b ∧ Even (Text.backslashes ((before ++ [c]) ++ a)) := by
      constructor
      · rintro ⟨a, b, h, he⟩
        rcases List.cons_eq_append_iff.mp h with ⟨rfl, h⟩ | ⟨a', rfl, h1⟩
        · obtain ⟨rfl, rfl⟩ := List.cons.inj h
          rw [List.append_nil] at he
          exact .inl ⟨rfl, rfl, he⟩
        · rw [List.append_cons] at he
          exact .inr ⟨a', b, h1, he⟩
      · rintro (⟨rfl, h, he⟩ | ⟨a, b, rfl, he⟩)
        · obtain ⟨b, rfl⟩ := List.head?_eq_some_iff.mp h
          exact ⟨[], b, rfl, by rwa [List.append_nil]⟩
        · exact ⟨c :: a, b, rfl, by rwa [List.append_cons]⟩
    rw [split, ← ih]
    by_cases hc : c = '\\'
    · subst hc
      rw [Text.backslashes_backslash]
      show interpolatesFrom (!!decide (Even (Text.backslashes before))) cs = true ↔ _
      simp only [Nat.even_add_one, decide_not]
      simp
    · rw [interpolatesFrom_of_ne hc, Text.backslashes_of_ne hc]
      simp [and_comm, and_left_comm]

/-- a hash sign with a brace is looked for behind an even number of backslashes -/
theorem interpolates_iff_even (cs : List Char) :
    interpolates cs = true ↔
      ∃ a b, cs = a ++ '#' :: '{' :: b ∧ Even (Text.backslashes a) :=
  interpolatesFrom_iff [] cs

/-! ## tokens -/

lemma closing_text {quote : Char} {cs t r : List Char} (h : closing quote cs = some (t, r)) :
    ∃ body, t = body ++ [quote] := by
  fun_induction closing quote cs generalizing t r with
  | case1 => cases h
  | case2 =>
    cases h
    exact ⟨[], rfl⟩
  | case3 => cases h
  | case4 => cases h
  | case5 d _ _ _ ih =>
    obtain ⟨u, hu, e⟩ := Option.map_eq_some_iff.mp h
    obtain ⟨rfl, rfl⟩ := Prod.mk.inj e
    obtain ⟨body, hb⟩ := ih hu
    exact ⟨'\\' :: d :: body, by rw [hb]; rfl⟩
  | case6 c _ _ _ ih =>
    obtain ⟨u, hu, e⟩ := Option.map_eq_some_iff.mp h
    obtain ⟨rfl, rfl⟩ := Prod.mk.inj e
    obtain ⟨body, hb⟩ := ih hu
    exact ⟨c :: body, by rw [hb]; rfl⟩

/-- what stands before the quotes of a literal -/
def lead : Kind → List Char
  | .symbol => [':']
  | _ => []

/-- a string literal between double quotes, or a symbol that is written as one -/
def DoubleQuoted (t : Token) : Prop :=
  (t.kind = .string ∨ t.kind = .symbol) ∧ lead t.kind ++ ['"'] <+: t.text

/-- what stands between the quotes -/
def body (t : Token) : List Char := (t.text.drop ((lead t.kind).length + 1)).dropLast

lemma body_of_text {t : Token} {cs : List Char} (h : t.text = lead t.kind ++ '"' :: cs ++ ['"']) :
    t.body = cs := by
  have hd : t.text = (lead t.kind ++ ['"']) ++ (cs ++ ['"']) := by
    rw [h, List.append_cons (lead t.kind), List.append_assoc]
  have hl : (lead t.kind).length + 1 = (lead t.kind ++ ['"']).length := by
    rw [List.length_append, List.length_singleton]
  unfold body
  rw [hd, hl, List.drop_left, List.dropLast_concat]

lemma string_doubleQuoted {cs t r : List Char} (h : string cs = some (t, r)) (hq : ['"'] <+: t) :
    ∃ body, t = '"' :: body ++ ['"'] := by
  obtain ⟨w, rfl⟩ := hq
  unfold string either at h
  split at h
  · next u hu =>
    -- the literal begins with the other kind of quote
    obtain rfl := Option.some.inj h
    obtain ⟨_, _, -, ht, -⟩ := after_text hu
    cases ht
  · obtain ⟨_, v, -, ht, hv⟩ := after_text h
    obtain ⟨body, rfl⟩ := closing_text hv
    exact ⟨body, ht⟩

lemma doubleQuoted_of_scan {cs : List Char} {ts : List Token} (h : scan cs = .ok ts) {t : Token}
    (ht : t ∈ ts) (hq : DoubleQuoted t) : t.text = lead t.kind ++ '"' :: t.body ++ ['"'] := by
  suffices h : ∃ cs, t.text = lead t.kind ++ '"' :: cs ++ ['"'] by
    obtain ⟨cs, h⟩ := h
    rw [body_of_text h]
    exact h
  obtain ⟨hk | hk, hq⟩ := hq
  · rw [hk] at hq ⊢
    obtain ⟨ds, r, hcut⟩ := scan_cut h (f := string) (by simp [cuts]) (by decide) t ht hk
    exact string_doubleQuoted hcut hq
  · rw [hk] at hq ⊢
    obtain ⟨ds, r, hcut⟩ := scan_cut h (f := symbol) (by simp [cuts]) (by decide) t ht hk
    obtain ⟨_, w, -, hw, hnext⟩ := after_text hcut
    rw [hw] at hq ⊢
    obtain ⟨-, hq⟩ := List.cons_prefix_cons.mp hq
    unfold either at hnext
    split at hnext
    · next u hu =>
      -- a symbol that is a name does not begin with a quote
      obtain rfl := Option.some.inj hnext
      obtain ⟨c, s, m, rfl, hc, -, -⟩ := name_identifier hu
      obtain ⟨rfl, -⟩ := List.cons_prefix_cons.mp hq
      cases hc
    · obtain ⟨body, rfl⟩ := string_doubleQuoted hnext hq
      exact ⟨body, rfl⟩

lemma reading_doubleQuoted {t : Token} (hq : DoubleQuoted t)
    (h : t.text = lead t.kind ++ '"' :: t.body ++ ['"']) :
    t.reading = if interpolates t.body then .interpolated
      else .value (.str (String.ofList (unescapeDouble t.body))) := by
  have hu : unquote? ('"' :: t.body ++ ['"']) =
      if interpolates t.body then none else some (unescapeDouble t.body) := by
    show (if interpolates (t.body ++ ['"']).dropLast then none
      else some (unescapeDouble (t.body ++ ['"']).dropLast)) = _
    rw [List.dropLast_concat]
  have hr : t.reading = quotedReading ('"' :: t.body ++ ['"']) := by
    obtain ⟨hk | hk, -⟩ := hq
    · rw [hk] at h
      unfold reading
      rw [hk, h]
      rfl
    · rw [hk] at h
      unfold reading
      rw [hk, h]
      rfl
  rw [hr, quotedReading, hu]
  by_cases hi : interpolates t.body = true
  · rw [if_pos hi, if_pos hi]
  · rw [if_neg hi, if_neg hi]

/-! ## texts written as literals -/

/-- each backslash, double quote and hash sign behind a backslash -/
def escapeDouble (cs : List Char) : List Char :=
  hide (fun c => c = '\\' ∨ c = '"' ∨ c = '#') cs

def doubleQuote (cs : List Char) : List Char := '"' :: escapeDouble cs ++ ['"']

lemma readDouble_hide {p : Char → Prop} [DecidablePred p] (hp : p '\\') (cs : List Char) :
    readDouble (hide p cs) = cs.map fun c => if p c then .hidden c else .plain c := by
  induction cs with
  | nil => rw [hide, List.flatMap_nil, readDouble, List.map_nil]
  | cons c cs ih =>
    by_cases hc : p c
    · rw [hide_of_pos hc, readDouble_backslash, ih, List.map_cons, if_pos hc]
    · have hb : c ≠ '\\' := fun e => hc (e ▸ hp)
      rw [hide_of_neg hc, readDouble_of_ne hb, ih, List.map_cons, if_neg hc]

/-- the characters that are hidden stand for themselves, and no hash sign is left by itself -/
lemma readDouble_escapeDouble (cs : List Char) :
    ¬ Interpolation (readDouble (escapeDouble cs)) ∧ (readDouble (escapeDouble cs)).map Piece.char = cs := by
  rw [escapeDouble, readDouble_hide (.inl rfl), List.map_map]
  constructor
  · intro h
    obtain ⟨c, -, hc⟩ := List.mem_map.mp (h.subset List.mem_cons_self)
    split at hc
    · cases hc
    · next hp =>
      cases hc
      exact hp (.inr (.inr rfl))
  · refine List.map_id'' (fun c => ?_) cs
    show Piece.char (if _ then _ else _) = c
    split
    · next hp => rcases hp with rfl | rfl | rfl <;> rfl
    · rfl

lemma scan_doubleQuote (cs : List Char) : scan (doubleQuote cs) =
    .ok [⟨.string, doubleQuote cs, 1⟩, endOfFile (1 + lineBreaks (doubleQuote cs))] := by
  have hc : closing '"' (escapeDouble cs ++ ['"']) = some (escapeDouble cs ++ ['"'], []) :=
    closing_hide (.inr (.inl rfl)) (.inl rfl) (by decide) (by decide) cs []
  have hl : lexeme? (doubleQuote cs) = some (⟨.string, doubleQuote cs⟩, []) := by
    unfold doubleQuote
    rw [List.cons_append, lexeme?_cons,
      show cuts.filter (fun k => k.1.begins '"') = [(.string, string)] from rfl]
    unfold firstCut string either
    rw [after_none (by decide), after_cons, if_pos rfl, hc]
    rfl
  have hs : lexemes (doubleQuote cs) = ([⟨.string, doubleQuote cs⟩], []) := by
    rw [lexemes_of_some hl, lexemes_nil]
  rw [scan_of_lexemes hs, spellings_cons, spellings_nil, List.append_nil]
  rfl

lemma ofTokens_of_text {t : Token} (hq : DoubleQuoted t)
    (h : t.text = lead t.kind ++ '"' :: t.body ++ ['"']) (us : List Token) :
    Value.ofTokens (t :: us) = if interpolates t.body then .error ⟨t.line, .interpolation⟩
      else .ok (.str (String.ofList ((readDouble t.body).map Piece.char)), us) := by
  unfold Value.ofTokens readers valueFrom
  rw [reading_doubleQuoted hq h, unescapeDouble_eq]
  by_cases hi : interpolates t.body = true
  · rw [if_pos hi, if_pos hi]
  · rw [if_neg hi, if_neg hi]

/-- A scanned literal between double quotes is refused as an interpolation if and only if the reading
from left to right meets a hash sign and a brace that are not hidden, and is what the reading yields
otherwise.  Every text is read back from its literal with backslashes, quotes and hash signs hidden. -/
theorem ofTokens_doubleQuoted :
    (∀ cs ts, scan cs = .ok ts → ∀ t ∈ ts, DoubleQuoted t →
      t.text = lead t.kind ++ '"' :: t.body ++ ['"'] ∧
        (Interpolation (readDouble t.body) ↔
          ∃ a b, t.body = a ++ '#' :: '{' :: b ∧ Even (Text.backslashes a)) ∧
        ∀ us, (Value.ofTokens (t :: us) = .error ⟨t.line, .interpolation⟩ ↔
            Interpolation (readDouble t.body)) ∧
          (¬ Interpolation (readDouble t.body) → Value.ofTokens (t :: us) =
            .ok (.str (String.ofList ((readDouble t.body).map Piece.char)), us))) ∧
      ∀ s, ∃ t last, scan (doubleQuote s) = .ok [t, endOfFile last] ∧ t.kind = .string ∧
        t.text = doubleQuote s ∧ ∀ us, Value.ofTokens (t :: us) = .ok (.str (String.ofList s), us) := by
  constructor
  · intro cs ts hs t ht hq
    have h := doubleQuoted_of_scan hs ht hq
    refine ⟨h, (interpolates_iff t.body).symm.trans (interpolates_iff_even t.body), fun us => ?_⟩
    rw [ofTokens_of_text hq h us, ← interpolates_iff]
    by_cases hi : interpolates t.body = true
    · simp [hi]
    · simp [hi]
  · intro s
    have hq : DoubleQuoted ⟨.string, doubleQuote s, 1⟩ := ⟨.inl rfl, _, rfl⟩
    have hb : Token.body ⟨.string, doubleQuote s, 1⟩ = escapeDouble s := body_of_text rfl
    obtain ⟨hn, hc⟩ := readDouble_escapeDouble s
    rw [← hb] at hn hc
    refine ⟨_, _, scan_doubleQuote s, rfl, rfl, fun us => ?_⟩
    rw [ofTokens_of_text hq (by rw [hb]; rfl) us, if_neg (mt (interpolates_iff _).mp hn), hc]

/-- three backslashes hide the hash sign of a text, two leave that of a symbol as it is -/
theorem ofTokens_doubleQuoted_backslashes :
    let t : Token := ⟨.string, "\"\\\\\\#\x7b\"".toList, 1⟩
    let u : Token := ⟨.symbol, ":\"\\\\#\x7b\"".toList, 1⟩
    scan "\"\\\\\\#\x7b\" :\"\\\\#\x7b\"".toList = .ok [t, u, endOfFile 1] ∧
      DoubleQuoted t ∧ DoubleQuoted u ∧
      (∀ us, Value.ofTokens (t :: us) = .ok (.str "\\#\x7b", us)) ∧
      ∀ us, Value.ofTokens (u :: us) = .error ⟨1, .interpolation⟩ := by
  intro t u
  have hl : lexemes "\"\\\\\\#\x7b\" :\"\\\\#\x7b\"".toList =
      ([⟨.string, "\"\\\\\\#\x7b\"".toList⟩, ⟨.gap, " ".toList⟩,
        ⟨.symbol, ":\"\\\\#\x7b\"".toList⟩], []) := by
    rw [lexemes_eq_within (n := 20) (by decide)]
    decide +kernel
  have hs := scan_of_lexemes hl
  have ht : DoubleQuoted t := ⟨.inl rfl, _, rfl⟩
  have hu : DoubleQuoted u := ⟨.inr rfl, _, rfl⟩
  obtain ⟨-, -, ht'⟩ := ofTokens_doubleQuoted.1 _ _ hs t (by decide) ht
  obtain ⟨-, -, hu'⟩ := ofTokens_doubleQuoted.1 _ _ hs u (by decide) hu
  refine ⟨hs, ht, hu, fun us => (ht' us).2 ?_, fun us => (hu' us).1.mpr ?_⟩
  · exact (interpolates_iff _).not.mp (by decide)
  · exact (interpolates_iff _).mp (by decide)

end Gemfile.Token
