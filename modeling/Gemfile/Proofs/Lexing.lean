import Gemfile.Proofs.Scan
import Gemfile.Proofs.Text
import Gemfile.Token.Literal
import Mathlib.Tactic.Lemma

/-!
# Lexemes read back

What is cut off the front of a text, for texts that begin with the spelling of a token.

* `Ends r`         `r` cannot be a part of the name, keyword or number before it
* `Identifier w`   a letter or an underscore, name characters, and at most one mark
* `lexeme?_space`, `lexeme?_name`, `lexeme?_number`, `lexeme?_string`   the kinds of lexeme
* `mark_append`    the tokens of lexemes in two parts
-/

namespace Gemfile.Token

/-- what holds of the characters of a text one by one -/
lemma checked {p : Char → Prop} [DecidablePred p] {cs : List Char}
    (h : cs.all (fun c => decide (p c)) = true) : ∀ c ∈ cs, p c :=
  fun c hc => of_decide_eq_true (List.all_eq_true.mp h c hc)

/-- nothing, or one of the characters that end a word -/
def Ends (r : List Char) : Prop :=
  ∀ c, r.head? = some c → c ∈ ['(', ')', ',', ']', '}', ' ', '\n']

lemma ends_cons {c : Char} (h : c ∈ ['(', ')', ',', ']', '}', ' ', '\n']) (r : List Char) :
    Ends (c :: r) := fun d hd => by
  rw [List.head?_cons, Option.some.injEq] at hd
  exact hd ▸ h

lemma row_append {p : Char → Bool} {w r : List Char} (hw : w ≠ []) (h : ∀ c ∈ w, p c = true)
    (hr : ∀ c, r.head? = some c → p c = false) : row p (w ++ r) = some (w, r) := by
  unfold row
  rw [List.takeWhile_append_of_pos h, List.dropWhile_append_of_pos h,
    Text.takeWhile_of_head hr, Text.dropWhile_of_head hr, List.append_nil]
  cases w with
  | nil => exact absurd rfl hw
  | cons c w => rfl

lemma row_none {p : Char → Bool} {c : Char} (h : p c = false) (r : List Char) :
    row p (c :: r) = none := by
  unfold row
  rw [List.takeWhile_cons_of_neg (by simp [h])]

lemma single_cons (p : Char → Bool) (c : Char) (r : List Char) :
    single p (c :: r) = if p c then some ([c], r) else none := rfl

lemma after_cons (c d : Char) (next : List Char → Cut) (r : List Char) :
    after c next (d :: r) = if d = c then (next r).map fun t => (d :: t.1, t.2) else none := rfl

lemma after_none {c d : Char} (h : d ≠ c) (next : List Char → Cut) (r : List Char) :
    after c next (d :: r) = none := if_neg h

lemma single_none {p : Char → Bool} {c : Char} (h : p c = false) (r : List Char) :
    single p (c :: r) = none := if_neg (by simp [h])

/-! ## the kinds that can begin with a character -/

def Kind.begins : Kind → Char → Bool
  | .newline, c => c == '\n' || c == ';'
  | .gap, c => isGapChar c || c == '\\'
  | .comment, c => c == '#'
  | .arrow, c => c == '='
  | .words, c => c == '%'
  | .label, c => isNameStart c
  | .symbol, c => c == ':'
  | .string, c => c == '\x27' || c == '"'
  | .number, c => c == '-' || Text.isDecimalDigit c
  | .name, c => isNameStart c
  | .punct, c => isPunct c
  | .endOfFile, _ => false

lemma either_none {first second : List Char → Cut} {cs : List Char} (h : first cs = none)
    (h' : second cs = none) : either first second cs = none := by
  unfold either
  rw [h, h']

lemma optionally_none {first : List Char → Cut} {cs : List Char} (h : first cs = none)
    (next : List Char → Cut) : optionally first next cs = none := by
  unfold optionally
  rw [h]
  rfl

lemma optionally_first {first next : List Char → Cut} {cs : List Char} {t : List Char × List Char}
    (h : first cs = some t) (h' : next t.2 = none) : optionally first next cs = some t := by
  unfold optionally
  rw [h, Option.map_some, h']

lemma optionally_both {first next : List Char → Cut} {cs : List Char} {t u : List Char × List Char}
    (h : first cs = some t) (h' : next t.2 = some u) :
    optionally first next cs = some (t.1 ++ u.1, u.2) := by
  unfold optionally
  rw [h, Option.map_some, h']

lemma plainName_none {c : Char} (h : isNameStart c = false) (r : List Char) :
    plainName (c :: r) = none := if_neg (by simp [h])

lemma cut_none {k : Kind × (List Char → Cut)} (hk : k ∈ cuts) {c : Char}
    (h : k.1.begins c = false) (r : List Char) : k.2 (c :: r) = none := by
  unfold cuts at hk
  simp only [List.mem_cons, List.not_mem_nil, or_false] at hk
  rcases hk with rfl | rfl | rfl | rfl | rfl | rfl | rfl | rfl | rfl | rfl | rfl
  · exact single_none h r
  · obtain ⟨h1, h2⟩ := Bool.or_eq_false_iff.mp h
    exact either_none (row_none h1 r) (after_none (beq_eq_false_iff_ne.mp h2) _ r)
  · show comment (c :: r) = none
    unfold comment
    split
    · next e =>
      rw [(List.cons.inj e).1] at h
      cases h
    · rfl
  · exact after_none (beq_eq_false_iff_ne.mp h) _ r
  · exact after_none (beq_eq_false_iff_ne.mp h) _ r
  · show label (c :: r) = none
    unfold label
    rw [plainName_none h]
    rfl
  · exact after_none (beq_eq_false_iff_ne.mp h) _ r
  · obtain ⟨h1, h2⟩ := Bool.or_eq_false_iff.mp h
    exact either_none (after_none (beq_eq_false_iff_ne.mp h1) _ r)
      (after_none (beq_eq_false_iff_ne.mp h2) _ r)
  · obtain ⟨h1, h2⟩ := Bool.or_eq_false_iff.mp h
    exact either_none (after_none (beq_eq_false_iff_ne.mp h1) _ r) (optionally_none (row_none h2 r) _)
  · exact optionally_none (plainName_none h r) _
  · exact single_none h r

lemma firstCut_filter {cs : List Char} {ks : List (Kind × (List Char → Cut))}
    {p : Kind × (List Char → Cut) → Bool} (h : ∀ k ∈ ks, p k = false → k.2 cs = none) :
    firstCut cs ks = firstCut cs (ks.filter p) := by
  induction ks with
  | nil => rfl
  | cons k ks ih =>
    have ih := ih fun k' hk' => h k' (List.mem_cons_of_mem _ hk')
    cases hp : p k with
    | true => rw [List.filter_cons_of_pos hp, firstCut, firstCut, ih]
    | false =>
      rw [List.filter_cons_of_neg (by simp [hp]), firstCut, h k List.mem_cons_self hp, ih]

/-- only the kinds that can begin with the first character need to be tried -/
theorem lexeme?_cons (c : Char) (r : List Char) :
    lexeme? (c :: r) = firstCut (c :: r) (cuts.filter fun k => k.1.begins c) :=
  firstCut_filter fun _ hk h => cut_none hk h r

/-! ## names -/

/-- `[A-Za-z_][A-Za-z0-9_]*[?!]?` -/
def Identifier (w : List Char) : Prop :=
  ∃ c s m, w = c :: s ++ m ∧ isNameStart c = true ∧ (∀ d ∈ s, isNameChar d = true) ∧
    (m = [] ∨ m = ['?'] ∨ m = ['!'])

lemma identifier_of_all {c : Char} {s : List Char} (hc : isNameStart c = true)
    (hs : s.all isNameChar = true) : Identifier (c :: s) :=
  ⟨c, s, [], by rw [List.append_nil], hc, List.all_eq_true.mp hs, .inl rfl⟩

lemma ne_of_isNameStart {c d : Char} (h : isNameStart c = true) (hd : isNameStart d = false) :
    c ≠ d := by
  intro e
  rw [e, hd] at h
  cases h

lemma range_of_isNameStart {c : Char} (h : isNameStart c = true) : 65 ≤ c.toNat ∧ c.toNat ≤ 122 := by
  unfold isNameStart at h
  rw [Bool.or_eq_true, beq_iff_eq] at h
  rcases h with h | rfl
  · exact Text.range_of_isAlpha h
  · decide

/-- letters and underscores are no digits of any script -/
lemma not_digit_of_isNameStart {c : Char} (h : isNameStart c = true) :
    Text.isDecimalDigit c = false := by
  have hc := range_of_isNameStart h
  have hz : ∀ z ∈ Text.zeroDigits, z = 48 ∨ 122 < z := by decide
  have hf : Text.zeroDigits.find?
      (fun z => decide (z ≤ c.toNat) && decide (c.toNat ≤ z + 9)) = none := by
    rw [List.find?_eq_none]
    intro z h
    simp
    rcases hz z h with rfl | hz <;> omega
  unfold Text.isDecimalDigit Text.digitValue?
  rw [hf]
  rfl

/-- what stands behind the letters of an identifier is no part of a name or a label -/
lemma head_behind_name {m r : List Char} (hm : m = [] ∨ m = ['?'] ∨ m = ['!']) (hr : Ends r) :
    ∀ c, (m ++ r).head? = some c → isNameChar c = false ∧ c ≠ ':' := by
  intro c hc
  have h : c ∈ ['?', '!', '(', ')', ',', ']', '}', ' ', '\n'] := by
    rcases hm with rfl | rfl | rfl
    · exact List.mem_cons_of_mem _ (List.mem_cons_of_mem _ (hr c hc))
    · rw [List.cons_append, List.head?_cons, Option.some.injEq] at hc
      rw [← hc]
      decide
    · rw [List.cons_append, List.head?_cons, Option.some.injEq] at hc
      rw [← hc]
      decide
  have hd : ∀ c ∈ ['?', '!', '(', ')', ',', ']', '}', ' ', '\n'],
      isNameChar c = false ∧ c ≠ ':' := checked (by decide)
  exact hd c h

lemma plainName_append {c : Char} {s r : List Char} (hc : isNameStart c = true)
    (hs : ∀ d ∈ s, isNameChar d = true) (hr : ∀ d, r.head? = some d → isNameChar d = false) :
    plainName (c :: s ++ r) = some (c :: s, r) := by
  show (if isNameStart c then some (c :: (s ++ r).takeWhile isNameChar,
    (s ++ r).dropWhile isNameChar) else none) = _
  rw [if_pos hc, List.takeWhile_append_of_pos hs, List.dropWhile_append_of_pos hs,
    Text.takeWhile_of_head hr, Text.dropWhile_of_head hr, List.append_nil]

lemma cuts_of_isNameStart {c : Char} (h : isNameStart c = true) :
    cuts.filter (fun k => k.1.begins c) = [(.label, label), (.name, name)] := by
  have ne : ∀ d ∈ ['\n', ';', ' ', '\t', '\r', '\\', '#', '=', '%', ':', '\x27', '"', '-', '(', ')',
      ',', '[', ']', '{', '}'], c ≠ d := by
    have hd : ∀ d ∈ ['\n', ';', ' ', '\t', '\r', '\\', '#', '=', '%', ':', '\x27', '"', '-', '(', ')',
        ',', '[', ']', '{', '}'], isNameStart d = false := checked (by decide)
    exact fun d hm => ne_of_isNameStart h (hd d hm)
  simp only [List.forall_mem_cons] at ne
  have hp : isPunct c = false := by
    show ['(', ')', ',', '[', ']', '{', '}'].contains c = false
    simp [ne]
  simp [cuts, Kind.begins, isGapChar, h, hp, not_digit_of_isNameStart h, ne]

lemma loneColon_none {r : List Char} (h : ∀ c, r.head? = some c → c ≠ ':') : loneColon r = none := by
  unfold loneColon
  split
  · exact absurd rfl (h ':' rfl)
  · rfl

lemma optionally_mark {cs t m r : List Char} (h : plainName cs = some (t, m ++ r))
    (hm : m = [] ∨ m = ['?'] ∨ m = ['!']) (hr : Ends r) : name cs = some (t ++ m, r) := by
  rcases hm with rfl | rfl | rfl
  · have hs : single (fun c => c == '?' || c == '!') ([] ++ r) = none := by
      cases r with
      | nil => rfl
      | cons c r =>
        have hc : c ∈ ['(', ')', ',', ']', '}', ' ', '\n'] := hr c rfl
        have hd : ∀ c ∈ ['(', ')', ',', ']', '}', ' ', '\n'], (c == '?' || c == '!') = false :=
          checked (by decide)
        exact single_none (hd c hc) r
    rw [List.append_nil]
    exact optionally_first h hs
  · have hs : single (fun c => c == '?' || c == '!') (['?'] ++ r) = some (['?'], r) := rfl
    exact optionally_both h hs
  · have hs : single (fun c => c == '?' || c == '!') (['!'] ++ r) = some (['!'], r) := rfl
    exact optionally_both h hs

theorem lexeme?_name {w r : List Char} (hw : Identifier w) (hr : Ends r) :
    lexeme? (w ++ r) = some (⟨.name, w⟩, r) := by
  obtain ⟨c, s, m, rfl, hc, hs, hm⟩ := hw
  have hb := head_behind_name hm hr
  have hp : plainName (c :: s ++ (m ++ r)) = some (c :: s, m ++ r) :=
    plainName_append hc hs fun d hd => (hb d hd).1
  have hl : label (c :: s ++ (m ++ r)) = none := by
    unfold label
    rw [hp]
    show (loneColon (m ++ r)).map _ = none
    rw [loneColon_none fun d hd => (hb d hd).2]
    rfl
  rw [List.append_assoc, List.cons_append, lexeme?_cons, cuts_of_isNameStart hc, ← List.cons_append]
  unfold firstCut
  rw [hl]
  unfold firstCut
  rw [optionally_mark hp hm hr]

/-! ## numbers -/

lemma isDecimalDigit_of_isDigit {c : Char} (h : c.isDigit = true) :
    Text.isDecimalDigit c = true := by
  unfold Text.isDecimalDigit
  rw [Text.digitValue?_of_isDigit h]
  rfl

lemma ends_not_digit {r : List Char} (hr : Ends r) :
    ∀ c, r.head? = some c → Text.isDecimalDigit c = false ∧ c ≠ '.' := by
  have hd : ∀ c ∈ ['(', ')', ',', ']', '}', ' ', '\n'],
      Text.isDecimalDigit c = false ∧ c ≠ '.' := checked (by decide)
  exact fun c hc => hd c (hr c hc)

lemma unsigned_append {ds r : List Char} (hn : ds ≠ []) (hd : ∀ c ∈ ds, c.isDigit = true)
    (hr : Ends r) : unsigned (ds ++ r) = some (ds, r) := by
  have h1 : digits (ds ++ r) = some (ds, r) :=
    row_append hn (fun c hc => isDecimalDigit_of_isDigit (hd c hc)) fun c hc =>
      (ends_not_digit hr c hc).1
  have h2 : after '.' digits r = none := by
    cases r with
    | nil => rfl
    | cons c r => exact after_none (ends_not_digit hr c rfl).2 _ r
  exact optionally_first h1 h2

lemma cuts_of_isDecimalDigit {c : Char} (h : Text.isDecimalDigit c = true) :
    cuts.filter (fun k => k.1.begins c) = [(.number, number)] := by
  have ne : ∀ d ∈ ['\n', ';', ' ', '\t', '\r', '\\', '#', '=', '%', ':', '\x27', '"', '-', '(', ')',
      ',', '[', ']', '{', '}'], c ≠ d := by
    have hd : ∀ d ∈ ['\n', ';', ' ', '\t', '\r', '\\', '#', '=', '%', ':', '\x27', '"', '-', '(', ')',
        ',', '[', ']', '{', '}'], Text.isDecimalDigit d = false := checked (by decide)
    intro d hm e
    rw [e, hd d hm] at h
    cases h
  have hn : isNameStart c = false := by
    rw [← Bool.not_eq_true]
    intro hn
    rw [not_digit_of_isNameStart hn] at h
    cases h
  simp only [List.forall_mem_cons] at ne
  have hp : isPunct c = false := by
    show ['(', ')', ',', '[', ']', '{', '}'].contains c = false
    simp [ne]
  simp [cuts, Kind.begins, isGapChar, hn, hp, h, ne]

theorem lexeme?_number {sign ds r : List Char} (hs : sign = [] ∨ sign = ['-']) (hn : ds ≠ [])
    (hd : ∀ c ∈ ds, c.isDigit = true) (hr : Ends r) :
    lexeme? (sign ++ ds ++ r) = some (⟨.number, sign ++ ds⟩, r) := by
  have hu := unsigned_append hn hd hr
  rcases hs with rfl | rfl
  · obtain ⟨d, ds, rfl⟩ := List.exists_cons_of_ne_nil hn
    have hm : d ≠ '-' := by
      intro e
      have h := hd d List.mem_cons_self
      rw [e] at h
      cases h
    show lexeme? (d :: (ds ++ r)) = _
    rw [lexeme?_cons, cuts_of_isDecimalDigit (isDecimalDigit_of_isDigit (hd d List.mem_cons_self))]
    unfold firstCut number either
    rw [after_none hm, ← List.cons_append, hu]
    rfl
  · show lexeme? ('-' :: (ds ++ r)) = _
    rw [lexeme?_cons, show cuts.filter (fun k => k.1.begins '-') = [(.number, number)] from rfl]
    have ha : after '-' unsigned ('-' :: (ds ++ r)) = some ('-' :: ds, r) := by
      show (unsigned (ds ++ r)).map (fun t => ('-' :: t.1, t.2)) = _
      rw [hu]
      rfl
    unfold firstCut number either
    rw [ha]
    rfl

/-! ## texts -/

/-- some characters, each behind a backslash, and the others -/
def hide (p : Char → Prop) [DecidablePred p] (cs : List Char) : List Char :=
  cs.flatMap fun c => if p c then ['\\', c] else [c]

/-- each quote and each backslash behind a backslash -/
def escapeSingle (cs : List Char) : List Char :=
  cs.flatMap fun c => if c = '\\' ∨ c = '\x27' then ['\\', c] else [c]

section
variable {p : Char → Prop} [DecidablePred p]

lemma hide_of_pos {c : Char} (h : p c) (cs : List Char) : hide p (c :: cs) = '\\' :: c :: hide p cs := by
  unfold hide
  rw [List.flatMap_cons, if_pos h]
  rfl

lemma hide_of_neg {c : Char} (h : ¬p c) (cs : List Char) : hide p (c :: cs) = c :: hide p cs := by
  unfold hide
  rw [List.flatMap_cons, if_neg h]
  rfl

/-- a literal whose quotes and backslashes are hidden ends with the quote behind it -/
lemma closing_hide {quote : Char} (hq : p quote) (hb : p '\\') (hn : ¬p '\n') (hne : quote ≠ '\\')
    (cs r : List Char) : closing quote (hide p cs ++ quote :: r) = some (hide p cs ++ [quote], r) := by
  induction cs with
  | nil =>
    show closing quote (quote :: r) = _
    rw [closing_cons, if_pos rfl]
    rfl
  | cons c cs ih =>
    by_cases hc : p c
    · have hc' : c ≠ '\n' := fun e => hn (e ▸ hc)
      rw [hide_of_pos hc, List.cons_append, List.cons_append, closing_cons, if_neg hne.symm, if_pos rfl]
      dsimp only
      rw [if_neg hc', ih]
      rfl
    · have hq' : c ≠ quote := fun e => hc (e ▸ hq)
      have hb' : c ≠ '\\' := fun e => hc (e ▸ hb)
      rw [hide_of_neg hc, List.cons_append, closing_cons, if_neg hq', if_neg hb', ih]
      rfl

end

lemma escapeSingle_hidden {c : Char} (h : c = '\\' ∨ c = '\x27') (cs : List Char) :
    escapeSingle (c :: cs) = '\\' :: c :: escapeSingle cs := hide_of_pos h cs

lemma escapeSingle_plain {c : Char} (h : ¬(c = '\\' ∨ c = '\x27')) (cs : List Char) :
    escapeSingle (c :: cs) = c :: escapeSingle cs := hide_of_neg h cs

lemma closing_escape (cs r : List Char) :
    closing '\x27' (escapeSingle cs ++ '\x27' :: r) = some (escapeSingle cs ++ ['\x27'], r) :=
  closing_hide (.inr rfl) (.inl rfl) (by decide) (by decide) cs r

lemma unescapeSingle_cons (c d : Char) (r : List Char) :
    unescapeSingle (c :: d :: r) =
      if c = '\\' ∧ (d = '\\' ∨ d = '\x27') then d :: unescapeSingle r
      else c :: unescapeSingle (d :: r) := by
  rw [unescapeSingle]

lemma unescapeSingle_plain {c : Char} (h : c ≠ '\\') (r : List Char) :
    unescapeSingle (c :: r) = c :: unescapeSingle r := by
  cases r with
  | nil => rw [unescapeSingle, unescapeSingle]
  | cons d r => rw [unescapeSingle_cons, if_neg fun e => h e.1]

/-- a hidden character is brought back, and no other one is taken for a hidden one -/
lemma unescape_escape (cs : List Char) : unescapeSingle (escapeSingle cs) = cs := by
  induction cs with
  | nil => exact unescapeSingle_nil
  | cons c cs ih =>
    by_cases hc : c = '\\' ∨ c = '\x27'
    · rw [escapeSingle_hidden hc, unescapeSingle_cons, if_pos ⟨rfl, hc⟩, ih]
    · rw [escapeSingle_plain hc, unescapeSingle_plain fun e => hc (.inl e), ih]

lemma unquote?_escape (cs : List Char) :
    unquote? ('\x27' :: escapeSingle cs ++ ['\x27']) = some cs := by
  show some (unescapeSingle (escapeSingle cs ++ ['\x27']).dropLast) = _
  rw [List.dropLast_concat, unescape_escape]

theorem lexeme?_string (cs r : List Char) :
    lexeme? ('\x27' :: escapeSingle cs ++ '\x27' :: r) =
      some (⟨.string, '\x27' :: escapeSingle cs ++ ['\x27']⟩, r) := by
  have ha : after '\x27' (closing '\x27') ('\x27' :: (escapeSingle cs ++ '\x27' :: r)) =
      some ('\x27' :: escapeSingle cs ++ ['\x27'], r) := by
    show (closing '\x27' (escapeSingle cs ++ '\x27' :: r)).map (fun t => ('\x27' :: t.1, t.2)) = _
    rw [closing_escape]
    rfl
  rw [List.cons_append, lexeme?_cons,
    show cuts.filter (fun k => k.1.begins '\x27') = [(.string, string)] from rfl]
  unfold firstCut string either
  rw [ha]

/-! ## marks and gaps -/

lemma lexeme?_punct {c : Char} (h : c ∈ ['(', ')', ',', '[', ']', '{', '}']) (r : List Char) :
    lexeme? (c :: r) = some (⟨.punct, [c]⟩, r) := by
  simp only [List.mem_cons, List.not_mem_nil, or_false] at h
  rcases h with rfl | rfl | rfl | rfl | rfl | rfl | rfl <;> rfl

lemma lexeme?_newline (r : List Char) : lexeme? ('\n' :: r) = some (⟨.newline, ['\n']⟩, r) := rfl

lemma lexeme?_arrow (r : List Char) :
    lexeme? ('=' :: '>' :: r) = some (⟨.arrow, ['=', '>']⟩, r) := rfl

lemma lexeme?_space {r : List Char} (h : ∀ c, r.head? = some c → isGapChar c = false) :
    lexeme? (' ' :: r) = some (⟨.gap, [' ']⟩, r) := by
  have hr : row isGapChar (' ' :: r) = some ([' '], r) :=
    row_append (w := [' ']) (by simp) (by simp [isGapChar]) h
  rw [lexeme?_cons, show cuts.filter (fun k => k.1.begins ' ') = [(.gap, gap)] from rfl]
  unfold firstCut gap either
  rw [hr]

/-! ## tokens of lexemes -/

lemma mark_append (line : Nat) (ls ms : List Lexeme) :
    mark line (ls ++ ms) = mark line ls ++ mark (line + lineBreaks (spellings ls)) ms := by
  induction ls generalizing line with
  | nil => rfl
  | cons l ls ih =>
    rw [List.cons_append, mark, mark, ih, spellings_cons, lineBreaks_append, Nat.add_assoc]
    by_cases hl : l.kind.isToken = true
    · rw [if_pos hl, if_pos hl]
      rfl
    · rw [if_neg hl, if_neg hl]

end Gemfile.Token
