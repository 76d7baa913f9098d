import Gemfile.Proofs.Pattern
import Gemfile.Proofs.Lexing

/-!
# The patterns of lexemes

* `Token.alternatives`   the kinds of lexeme in the order in which they are tried, each with its pattern
* `cuts_eq`              what the function of a kind cuts off is what its pattern prefers
-/

namespace Gemfile

namespace Pattern

/-- characters of a class, one at least, and what follows them -/
def run (p : Char → Bool) (q : Pattern) : Pattern := .seq (.char p) (.seq (.many (.char p)) q)

def newline : Pattern := .alt (is '\n') (is ';')

def gap : Pattern :=
  .alt (run Token.isGapChar .empty) (.seq (is '\\') (.seq (optional (is '\r')) (is '\n')))

def comment : Pattern := .seq (is '#') (.many (isNot '\n'))

def arrow : Pattern := .seq (is '=') (is '>')

def enclosed (left right : Char) : Pattern :=
  .seq (is left) (.seq (.many (isNot right)) (is right))

def words : Pattern :=
  .seq (is '%') (.seq (.char fun c => c == 'w' || c == 'i')
    (.alt (enclosed '[' ']') (.alt (enclosed '(' ')') (enclosed '{' '}'))))

/-- a letter or an underscore, such characters or digits, and what follows them -/
def named (q : Pattern) : Pattern :=
  .seq (.char Token.isNameStart) (.seq (.many (.char Token.isNameChar)) q)

def label : Pattern := named (.seq (is ':') (.notBefore (· == ':')))

def name : Pattern := named (optional (.char fun c => c == '?' || c == '!'))

/-- a character that is neither `quote` nor a backslash, or a backslash with any character but a line
break -/
def quotedChar (quote : Char) : Pattern :=
  .alt (.char fun c => c != quote && c != '\\') (.seq (is '\\') (isNot '\n'))

def quoted (quote : Char) : Pattern :=
  .seq (is quote) (.seq (.many (quotedChar quote)) (is quote))

def symbol : Pattern := .seq (is ':') (.alt name (.alt (quoted '"') (quoted '\x27')))

def string : Pattern := .alt (quoted '\x27') (quoted '"')

def number : Pattern :=
  .seq (optional (is '-')) (run Text.isDecimalDigit
    (optional (.seq (is '.') (run Text.isDecimalDigit .empty))))

end Pattern

namespace Token
open Pattern (first? prepend)

def alternatives : List (Kind × Pattern) :=
  [(.newline, .newline), (.gap, .gap), (.comment, .comment), (.arrow, .arrow), (.words, .words),
   (.label, .label), (.symbol, .symbol), (.string, .string), (.number, .number), (.name, .name),
   (.punct, .char isPunct)]

lemma first?_single (p : Char → Bool) : first? (.char p) = single p := by
  funext cs
  cases cs with
  | nil => rfl
  | cons c r => exact Pattern.first?_char p c r

lemma first?_is (c : Char) : first? (.is c) = single (· == c) := first?_single _

lemma after_self (c : Char) (next : List Char → Cut) (r : List Char) :
    after c next (c :: r) = (next r).map (prepend [c]) := if_pos rfl

lemma first?_after (c : Char) (q : Pattern) : first? (.seq (.is c) q) = after c (first? q) := by
  funext cs
  cases cs with
  | nil => rfl
  | cons d r =>
    show first? (.seq (.char (· == c)) q) (d :: r) = _
    rw [Pattern.first?_seq_char]
    by_cases hd : d = c
    · rw [if_pos (by simp [hd]), hd, after_self]
    · rw [if_neg (by simp [hd]), after_none hd]

lemma first?_either (p q : Pattern) : first? (.alt p q) = either (first? p) (first? q) := by
  funext cs
  rw [Pattern.first?_alt]
  unfold either
  cases first? p cs <;> rfl

/-- two kinds that cannot both begin a text may be tried in either order -/
lemma either_comm {first second : List Char → Cut} (h : ∀ cs, first cs = none ∨ second cs = none) :
    either first second = either second first := by
  funext cs
  unfold either
  rcases h cs with h | h
  · rw [h]
    cases second cs <;> rfl
  · rw [h]
    cases first cs <;> rfl

lemma after_or {c d : Char} (h : c ≠ d) (f g : List Char → Cut) (cs : List Char) :
    after c f cs = none ∨ after d g cs = none := by
  cases cs with
  | nil => exact .inl rfl
  | cons e r =>
    by_cases he : e = c
    · subst he
      exact .inr (after_none h g r)
    · exact .inl (after_none he f r)

/-! ## runs of characters -/

/-- a run is what `row` cuts off, with what stands behind it -/
lemma first?_row {p : Char → Bool} {q : Pattern} (h : ∀ cs, (first? q cs).isSome)
    (cs : List Char) : first? (.run p q) cs =
      (row p cs).bind fun t => (first? q t.2).map (prepend t.1) := by
  cases cs with
  | nil => rfl
  | cons c r =>
    show first? (.seq (.char p) (.seq (.many (.char p)) q)) (c :: r) = _
    rw [Pattern.first?_seq_char, Pattern.first?_run (.inl h)]
    by_cases hc : p c = true
    · rw [if_pos hc]
      unfold row
      rw [List.takeWhile_cons_of_pos hc, List.dropWhile_cons_of_pos hc, Option.map_map]
      rfl
    · rw [if_neg hc, row_none (by simpa using hc)]
      rfl

lemma first?_row_empty (p : Char → Bool) : first? (.run p .empty) = row p := by
  funext cs
  rw [first?_row fun _ => rfl]
  cases row p cs with
  | none => rfl
  | some t =>
    show some (t.1 ++ [], t.2) = some t
    rw [List.append_nil]

lemma first?_named {q : Pattern}
    (h : (∀ cs, (first? q cs).isSome) ∨ ∀ c r, isNameChar c = true → first? q (c :: r) = none)
    (cs : List Char) : first? (.named q) cs =
      (plainName cs).bind fun t => (first? q t.2).map (prepend t.1) := by
  cases cs with
  | nil => rfl
  | cons c r =>
    show first? (.seq (.char isNameStart) (.seq (.many (.char isNameChar)) q)) (c :: r) = _
    rw [Pattern.first?_seq_char, Pattern.first?_run h]
    unfold plainName
    by_cases hc : isNameStart c = true
    · rw [if_pos hc]
      dsimp only
      rw [if_pos hc, Option.map_map]
      rfl
    · rw [if_neg hc]
      dsimp only
      rw [if_neg hc]
      rfl

/-- what is cut off with something behind it that may be missing -/
lemma optionally_eq (first : List Char → Cut) (q : Pattern) (cs : List Char) :
    optionally first (first? q) cs =
      (first cs).bind fun t => (first? (.optional q) t.2).map (prepend t.1) := by
  cases hf : first cs with
  | none => rw [optionally_none hf]; rfl
  | some t =>
    show _ = (first? (.optional q) t.2).map (prepend t.1)
    rw [Pattern.first?_optional]
    cases hq : first? q t.2 with
    | none =>
      rw [optionally_first hf hq]
      show some t = some (t.1 ++ [], t.2)
      rw [List.append_nil]
    | some u => rw [optionally_both hf hq]; rfl

lemma isSome_optional (q : Pattern) (cs : List Char) : (first? (.optional q) cs).isSome := by
  rw [Pattern.first?_optional]
  rfl

/-! ## the kinds -/

lemma newline_eq : newline = first? .newline := by
  show _ = first? (.alt (.is '\n') (.is ';'))
  rw [first?_either, first?_is, first?_is]
  funext cs
  cases cs with
  | nil => rfl
  | cons c r =>
    unfold newline either single
    by_cases h : c = '\n' <;> simp [h]

lemma gap_eq : gap = first? .gap := by
  have hb : first? (.seq (.optional (.is '\r')) (.is '\n')) =
      either (single (· == '\n')) (after '\r' (single (· == '\n'))) := by
    rw [either_comm, ← first?_is, ← first?_after, ← first?_either]
    · funext cs
      rw [Pattern.first?_seq_optional, Pattern.first?_alt]
    · intro cs
      cases cs with
      | nil => exact .inl rfl
      | cons c r =>
        by_cases hc : c = '\r'
        · subst hc
          exact .inl rfl
        · exact .inr (after_none hc _ r)
  show _ = first? (.alt (.run isGapChar .empty)
    (.seq (.is '\\') (.seq (.optional (.is '\r')) (.is '\n'))))
  rw [first?_either, first?_row_empty, first?_after, hb]
  rfl

lemma comment_eq : comment = first? .comment := by
  show _ = first? (.seq (.is '#') (.many (.isNot '\n')))
  rw [first?_after]
  funext cs
  cases cs with
  | nil => rfl
  | cons c r =>
    by_cases hc : c = '#'
    · subst hc
      show _ = (first? (.many (.char (· != '\n'))) r).map _
      rw [Pattern.first?_many_char]
      rfl
    · rw [after_none hc]
      exact cut_none (k := (.comment, comment)) (by simp [cuts]) (beq_eq_false_iff_ne.mpr hc) r

lemma arrow_eq : arrow = first? .arrow := by
  show _ = first? (.seq (.is '=') (.is '>'))
  rw [first?_after, first?_is]
  rfl

lemma upTo_eq (close : Char) : upTo close = first? (.seq (.many (.isNot close)) (.is close)) := by
  funext cs
  induction cs with
  | nil => rfl
  | cons c r ih =>
    show _ = first? (.seq (.many (.char (· != close))) (.is close)) (c :: r)
    rw [Pattern.first?_seq_many_char, first?_is, upTo]
    by_cases hc : c = close
    · rw [if_pos hc, if_neg (by simp [hc])]
      exact (if_pos (by simp [hc])).symm
    · rw [if_neg hc, if_pos (by simp [hc]), single_none (by simp [hc]), ih]
      exact (Option.or_none).symm

lemma words_eq : words = first? .words := by
  have hb : first? (.alt (.enclosed '[' ']') (.alt (.enclosed '(' ')') (.enclosed '{' '}'))) =
      bracketed := by
    have he : ∀ left right, first? (.enclosed left right) = after left (upTo right) := by
      intro left right
      show first? (.seq (.is left) (.seq (.many (.isNot right)) (.is right))) = _
      rw [first?_after, upTo_eq]
    rw [first?_either, first?_either, he, he, he]
    rfl
  show _ = first? (.seq (.is '%') (.seq (.char fun c => c == 'w' || c == 'i') _))
  rw [first?_after]
  unfold words
  congr 1
  funext cs
  cases cs with
  | nil => rfl
  | cons c r =>
    rw [Pattern.first?_seq_char, hb]
    unfold either
    by_cases hw : c = 'w'
    · subst hw
      rw [after_self, after_none (by decide)]
      cases bracketed r <;> rfl
    · rw [after_none hw]
      by_cases hi : c = 'i'
      · subst hi
        rw [after_self]
        rfl
      · rw [after_none hi, if_neg (by simp [hw, hi])]

lemma label_eq : label = first? .label := by
  have hc : first? (.seq (.is ':') (.notBefore (· == ':'))) = loneColon := by
    rw [first?_after]
    funext cs
    cases cs with
    | nil => rfl
    | cons c r =>
      by_cases hc : c = ':'
      · subst hc
        show (if r.head?.any (· == ':') then _ else _ : Pattern.Ways).head?.map _ =
          if r.head? = some ':' then none else some ([':'], r)
        cases r with
        | nil => rfl
        | cons d r => by_cases hd : d = ':' <;> simp [hd]
      · rw [after_none hc, loneColon_none]
        intro d hd
        rw [List.head?_cons, Option.some.injEq] at hd
        rw [← hd]
        exact hc
  funext cs
  show _ = first? (.named (.seq (.is ':') (.notBefore (· == ':')))) cs
  rw [first?_named, hc]
  · rfl
  · right
    intro c r h
    rw [first?_after]
    refine after_none ?_ _ r
    rintro rfl
    cases h

lemma name_eq : name = first? .name := by
  funext cs
  show _ = first? (.named (.optional (.char fun c => c == '?' || c == '!'))) cs
  rw [first?_named (.inl (isSome_optional _)), ← optionally_eq, first?_single]
  rfl

/-- nothing at the end of the literal, and elsewhere one character, or two if the first one is a
backslash -/
lemma ways_quotedChar {quote : Char} (hq : quote ≠ '\\') (c : Char) (r : List Char) :
    Pattern.ways (.quotedChar quote) (c :: r) =
      if c = quote then []
      else if c = '\\' then (Pattern.ways (.isNot '\n') r).map (prepend ['\\'])
      else [([c], r)] := by
  show Pattern.ways (.char fun c => c != quote && c != '\\') (c :: r) ++
    Pattern.followed (Pattern.ways (.is '\\') (c :: r)) (Pattern.ways (.isNot '\n')) = _
  have hs : Pattern.ways (.is '\\') (c :: r) = if c = '\\' then [([c], r)] else [] := by
    show Pattern.ways (.char (· == '\\')) (c :: r) = _
    rw [Pattern.ways_char_cons]
    by_cases h : c = '\\' <;> simp [h]
  rw [Pattern.ways_char_cons, hs]
  by_cases hc : c = quote
  · subst hc
    rw [if_neg (by simp), if_neg hq, if_pos rfl]
    rfl
  · rw [if_neg hc]
    by_cases hb : c = '\\'
    · rw [if_neg (by simp [hb]), if_pos hb, if_pos hb, hb, Pattern.followed_one]
      rfl
    · rw [if_pos (by simp [hc, hb]), if_neg hb, if_neg hb]
      rfl

lemma shortens_quotedChar (quote : Char) : Pattern.Shortens (.quotedChar quote) :=
  (Pattern.shortens_char _).alt ((Pattern.shortens_char _).seq (Pattern.shortens_char _))

/-- a literal goes on in one way at most -/
lemma first?_quotedChar {quote : Char} (hq : quote ≠ '\\') (c : Char) (r : List Char) :
    first? (.seq (.many (.quotedChar quote)) (.is quote)) (c :: r) =
      if c = quote then some ([c], r)
      else if c = '\\' then (single (· != '\n') r).bind fun t =>
        (first? (.seq (.many (.quotedChar quote)) (.is quote)) t.2).map (prepend (c :: t.1))
      else (first? (.seq (.many (.quotedChar quote)) (.is quote)) r).map (prepend [c]) := by
  have hw := ways_quotedChar hq c r
  have hone : (Pattern.ways (.quotedChar quote) (c :: r)).length ≤ 1 := by
    rw [hw]
    split
    · exact Nat.zero_le 1
    · split
      · rw [List.length_map]
        cases r with
        | nil => exact Nat.zero_le 1
        | cons d r =>
          show (if d != '\n' then [([d], r)] else []).length ≤ 1
          split
          · exact Nat.le_refl 1
          · exact Nat.zero_le 1
      · exact Nat.le_refl 1
  have hfirst : first? (.quotedChar quote) (c :: r) = if c = quote then none
      else if c = '\\' then (single (· != '\n') r).map (prepend [c]) else some ([c], r) := by
    show (Pattern.ways _ (c :: r)).head? = _
    rw [hw]
    split
    · rfl
    · split
      · next hb => rw [List.head?_map, hb, ← first?_single]; rfl
      · rfl
  rw [Pattern.first?_more (shortens_quotedChar quote) _ hone, hfirst, first?_is]
  by_cases hc : c = quote
  · rw [if_pos hc, if_pos hc, hc]
    exact if_pos (by simp)
  · rw [if_neg hc, if_neg hc, single_none (by simp [hc]), Option.or_none]
    by_cases hb : c = '\\'
    · rw [if_pos hb, if_pos hb, Option.bind_map]
      rfl
    · rw [if_neg hb, if_neg hb]
      rfl

theorem closing_eq {quote : Char} (hq : quote ≠ '\\') :
    closing quote = first? (.seq (.many (.quotedChar quote)) (.is quote)) := by
  suffices h : ∀ n, ∀ cs : List Char, cs.length ≤ n → closing quote cs =
      first? (.seq (.many (.quotedChar quote)) (.is quote)) cs from
    funext fun cs => h cs.length cs (Nat.le_refl _)
  intro n
  induction n with
  | zero =>
    intro cs hn
    rw [List.length_eq_zero_iff.mp (Nat.le_zero.mp hn), closing_nil]
    rfl
  | succ n ih =>
    intro cs hn
    cases cs with
    | nil =>
      rw [closing_nil]
      rfl
    | cons c r =>
      rw [List.length_cons] at hn
      rw [closing_cons, first?_quotedChar hq, ← ih r (by omega)]
      cases r with
      | nil => rfl
      | cons d r =>
        rw [List.length_cons] at hn
        dsimp only
        by_cases hd : d = '\n'
        · rw [if_pos hd, single_none (by simp [hd])]
          rfl
        · have hs : single (· != '\n') (d :: r) = some ([d], r) := if_pos (by simp [hd])
          rw [if_neg hd, hs, Option.bind_some, ← ih r (by omega)]
          rfl

lemma quoted_eq {quote : Char} (hq : quote ≠ '\\') :
    first? (.quoted quote) = after quote (closing quote) := by
  show first? (.seq (.is quote) (.seq (.many (.quotedChar quote)) (.is quote))) = _
  rw [first?_after, closing_eq hq]

lemma string_eq : string = first? .string := by
  show _ = first? (.alt (.quoted '\x27') (.quoted '"'))
  rw [first?_either, quoted_eq (by decide), quoted_eq (by decide)]
  rfl

/-- the two quotes are tried in the other order behind a colon -/
lemma symbol_eq : symbol = first? .symbol := by
  show _ = first? (.seq (.is ':') (.alt .name (.alt (.quoted '"') (.quoted '\x27'))))
  rw [first?_after, first?_either, first?_either, quoted_eq (by decide), quoted_eq (by decide),
    either_comm (after_or (by decide) _ _), ← name_eq]
  rfl

lemma number_eq : number = first? .number := by
  have hu : first? (.run Text.isDecimalDigit
      (.optional (.seq (.is '.') (.run Text.isDecimalDigit .empty)))) = unsigned := by
    funext cs
    rw [first?_row (isSome_optional _), ← optionally_eq, first?_after, first?_row_empty]
    rfl
  funext cs
  show _ = first? (.seq (.optional (.is '-')) _) cs
  rw [Pattern.first?_seq_optional, first?_after, hu]
  unfold number either
  cases after '-' unsigned cs <;> rfl

/-- what each kind cuts off a text is what its pattern prefers -/
theorem cuts_eq : cuts = alternatives.map fun k => (k.1, first? k.2) := by
  have hp : punctuation = first? (.char isPunct) := (first?_single _).symm
  unfold cuts
  rw [newline_eq, gap_eq, comment_eq, arrow_eq, words_eq, label_eq, symbol_eq, string_eq, number_eq,
    name_eq, hp]
  rfl

end Token

end Gemfile
