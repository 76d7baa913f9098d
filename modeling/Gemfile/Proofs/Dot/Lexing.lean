import Gemfile.Graph.Dot
import Gemfile.Proofs.Lexing

/-!
# The lexemes of the DOT language

* `Dot.identity`       cuts off what the language takes for an ID: a name, a number, a text in quotes or
                       one in angle brackets
* `Dot.lexeme?`        cuts off a lexeme; blanks and comments are gaps, and keywords are no IDs
* `Dot.lex`            the lexemes of a text without its gaps, if it consists of lexemes
* `Dot.IsId w`         a text is one ID as a whole
* `lex_of_gap`, `lex_of_token`   how a text is read from its first lexeme on
-/

namespace Gemfile.Dot

open Token (Cut single row after either optionally Faithful faithful_single faithful_row
  faithful_after faithful_optionally faithful_either)

/-! ## the rules -/

def isBlank (c : Char) : Bool := c == ' ' || c == '\t' || c == '\r' || c == '\n'

/-- letters that are not ASCII are letters of names as well -/
def isWordStart (c : Char) : Bool := Token.isNameStart c || decide (128 ≤ c.toNat)

def isWordChar (c : Char) : Bool := Token.isNameChar c || decide (128 ≤ c.toNat)

/-- what characters of a class there are, even none -/
def some? (p : Char → Bool) (cs : List Char) : Cut := some (cs.takeWhile p, cs.dropWhile p)

def commentRest : List Char → Cut
  | [] => none
  | c :: r =>
    if c = '*' ∧ r.head? = some '/' then some (['*', '/'], r.tail)
    else (commentRest r).map fun t => (c :: t.1, t.2)

/-- a comment up to the end of its line, or one with marks at its ends -/
def comment : List Char → Cut :=
  after '/' (either (after '/' (some? (· != '\n'))) (after '*' commentRest))

/-- a line that is left out -/
def directive : List Char → Cut := after '\n' (after '#' (some? (· != '\n')))

def gap : List Char → Cut := either directive (either (single isBlank) comment)

def isMark (c : Char) : Bool := "\x7b\x7d[]=;,:+".toList.contains c

def mark : List Char → Cut :=
  either (single isMark) (after '-' (single fun c => c == '>' || c == '-'))

def word : List Char → Cut
  | [] => none
  | c :: r => if isWordStart c then some (c :: r.takeWhile isWordChar, r.dropWhile isWordChar) else none

def unsigned : List Char → Cut :=
  either (after '.' (row Char.isDigit)) (optionally (row Char.isDigit) (after '.' (some? Char.isDigit)))

def number : List Char → Cut := either (after '-' unsigned) unsigned

/-- the rest of a text in quotes: a backslash takes the character behind it along -/
def quotedRest : List Char → Cut
  | [] => none
  | c :: r =>
    if c = '"' then some ([c], r)
    else if c = '\\' then
      match r with
      | [] => none
      | d :: r => (quotedRest r).map fun t => (c :: d :: t.1, t.2)
    else (quotedRest r).map fun t => (c :: t.1, t.2)

/-- the rest of a text in angle brackets, with `depth` of them open besides the first one -/
def enclosedRest : Nat → List Char → Cut
  | _, [] => none
  | depth, c :: r =>
    if c = '<' then (enclosedRest (depth + 1) r).map fun t => (c :: t.1, t.2)
    else if c = '>' then
      match depth with
      | 0 => some ([c], r)
      | depth + 1 => (enclosedRest depth r).map fun t => (c :: t.1, t.2)
    else (enclosedRest depth r).map fun t => (c :: t.1, t.2)

def identity : List Char → Cut :=
  either word (either number (either (after '"' quotedRest) (after '<' (enclosedRest 0))))

inductive Kind where
  | gap
  | mark
  | keyword
  | id
deriving DecidableEq

structure Lexeme where
  kind : Kind
  text : List Char
deriving DecidableEq

def lexeme? (cs : List Char) : Option (Lexeme × List Char) :=
  match gap cs with
  | some t => some (⟨.gap, t.1⟩, t.2)
  | none =>
    match mark cs with
    | some t => some (⟨.mark, t.1⟩, t.2)
    | none => (identity cs).map fun t => (⟨if isKeyword t.1 then .keyword else .id, t.1⟩, t.2)

lemma lexeme?_of_gap {cs t r : List Char} (h : gap cs = some (t, r)) :
    lexeme? cs = some (⟨.gap, t⟩, r) := by
  unfold lexeme?
  rw [h]

def IsId (w : List Char) : Prop := lexeme? w = some (⟨.id, w⟩, [])

instance (w : List Char) : Decidable (IsId w) := inferInstanceAs (Decidable (_ = _))

/-! ## a cut loses nothing -/

/-- what is cut off and the rest make up the text -/
def Lossless (cut : List Char → Cut) : Prop := ∀ cs t r, cut cs = some (t, r) → cs = t ++ r

lemma lossless_some? (p : Char → Bool) : Lossless (some? p) := by
  intro cs t r h
  obtain ⟨rfl, rfl⟩ := Prod.mk.inj (Option.some.inj h)
  exact List.takeWhile_append_dropWhile.symm

lemma faithful_of_lossless {c : Char} {next : List Char → Cut} (h : Lossless next) :
    Faithful (after c next) := by
  intro cs t r hc
  cases cs with
  | nil => cases hc
  | cons d cs =>
    by_cases hd : d = c
    · rw [Token.after_cons, if_pos hd] at hc
      obtain ⟨u, hu, e⟩ := Option.map_eq_some_iff.mp hc
      obtain ⟨rfl, rfl⟩ := Prod.mk.inj e
      exact ⟨by rw [h cs u.1 u.2 hu]; rfl, List.cons_ne_nil _ _⟩
    · rw [Token.after_none hd] at hc
      cases hc

/-- a character more in front -/
lemma cons_of_map {cut : List Char → Cut} {c : Char} {cs t r : List Char}
    (ih : ∀ t r, cut cs = some (t, r) → cs = t ++ r ∧ t ≠ [])
    (h : (cut cs).map (fun t => (c :: t.1, t.2)) = some (t, r)) : c :: cs = t ++ r ∧ t ≠ [] := by
  obtain ⟨u, hu, e⟩ := Option.map_eq_some_iff.mp h
  obtain ⟨rfl, rfl⟩ := Prod.mk.inj e
  rw [(ih u.1 u.2 hu).1]
  exact ⟨rfl, List.cons_ne_nil _ _⟩

lemma faithful_commentRest : Faithful commentRest := by
  intro cs
  induction cs with
  | nil => exact nofun
  | cons c cs ih =>
    intro t r h
    rw [commentRest] at h
    split at h
    · next hc =>
      obtain ⟨rfl, hc⟩ := hc
      obtain ⟨rfl, rfl⟩ := Prod.mk.inj (Option.some.inj h)
      cases cs with
      | nil => cases hc
      | cons d cs =>
        cases hc
        exact ⟨rfl, List.cons_ne_nil _ _⟩
    · exact cons_of_map ih h

lemma quotedRest_nil : quotedRest [] = none := by rw [quotedRest]

lemma quotedRest_cons (c : Char) (r : List Char) :
    quotedRest (c :: r) =
      if c = '"' then some ([c], r)
      else if c = '\\' then
        match r with
        | [] => none
        | d :: r => (quotedRest r).map fun t => (c :: d :: t.1, t.2)
      else (quotedRest r).map fun t => (c :: t.1, t.2) := by
  rw [quotedRest.eq_def]

lemma quotedRest_quote (r : List Char) : quotedRest ('"' :: r) = some (['"'], r) := by
  rw [quotedRest_cons, if_pos rfl]

lemma quotedRest_backslash (c : Char) (r : List Char) :
    quotedRest ('\\' :: c :: r) = (quotedRest r).map fun t => ('\\' :: c :: t.1, t.2) := by
  rw [quotedRest_cons, if_neg (by decide), if_pos rfl]

lemma quotedRest_of_ne {c : Char} (hq : c ≠ '"') (hb : c ≠ '\\') (r : List Char) :
    quotedRest (c :: r) = (quotedRest r).map fun t => (c :: t.1, t.2) := by
  rw [quotedRest_cons, if_neg hq, if_neg hb]

lemma faithful_quotedRest : Faithful quotedRest := by
  intro cs
  induction cs using quotedRest.induct with
  | case1 => exact fun t r h => by rw [quotedRest_nil] at h; cases h
  | case2 r =>
    intro t r' h
    rw [quotedRest_quote] at h
    obtain ⟨rfl, rfl⟩ := Prod.mk.inj (Option.some.inj h)
    exact ⟨rfl, List.cons_ne_nil _ _⟩
  | case3 =>
    intro t r h
    rw [quotedRest_cons] at h
    cases h
  | case4 hc d r ih =>
    intro t r' h
    rw [quotedRest_backslash] at h
    obtain ⟨u, hu, e⟩ := Option.map_eq_some_iff.mp h
    obtain ⟨rfl, rfl⟩ := Prod.mk.inj e
    rw [(ih u.1 u.2 hu).1]
    exact ⟨rfl, List.cons_ne_nil _ _⟩
  | case5 c r hq hb ih =>
    intro t r' h
    rw [quotedRest_of_ne hq hb] at h
    exact cons_of_map ih h

lemma faithful_enclosedRest (depth : Nat) : Faithful (enclosedRest depth) := by
  intro cs
  induction cs generalizing depth with
  | nil => exact nofun
  | cons c cs ih =>
    intro t r h
    rw [enclosedRest.eq_def] at h
    dsimp only at h
    split at h
    · exact cons_of_map (ih (depth + 1)) h
    · split at h
      · split at h
        · obtain ⟨rfl, rfl⟩ := Prod.mk.inj (Option.some.inj h)
          exact ⟨rfl, List.cons_ne_nil _ _⟩
        · exact cons_of_map (ih _) h
      · exact cons_of_map (ih depth) h

lemma faithful_gap : Faithful gap :=
  faithful_either (faithful_after (faithful_of_lossless (lossless_some? _)))
    (faithful_either (faithful_single _)
      (faithful_after (faithful_either (faithful_of_lossless (lossless_some? _))
        (faithful_after faithful_commentRest))))

lemma faithful_mark : Faithful mark :=
  faithful_either (faithful_single _) (faithful_after (faithful_single _))

lemma faithful_word : Faithful word := by
  intro cs t r h
  cases cs with
  | nil => cases h
  | cons c cs =>
    unfold word at h
    dsimp only at h
    split at h
    · obtain ⟨rfl, rfl⟩ := Prod.mk.inj (Option.some.inj h)
      exact ⟨by rw [List.cons_append, List.takeWhile_append_dropWhile], List.cons_ne_nil _ _⟩
    · cases h

lemma faithful_unsigned : Faithful unsigned :=
  faithful_either (faithful_after (faithful_row _))
    (faithful_optionally (faithful_row _) (faithful_of_lossless (lossless_some? _)))

lemma faithful_identity : Faithful identity :=
  faithful_either faithful_word
    (faithful_either (faithful_either (faithful_after faithful_unsigned) faithful_unsigned)
      (faithful_either (faithful_after faithful_quotedRest)
        (faithful_after (faithful_enclosedRest 0))))

lemma lexeme?_append {cs r : List Char} {l : Lexeme} (h : lexeme? cs = some (l, r)) :
    cs = l.text ++ r ∧ l.text ≠ [] := by
  unfold lexeme? at h
  split at h
  · next t ht =>
    obtain ⟨rfl, rfl⟩ := Prod.mk.inj (Option.some.inj h)
    exact faithful_gap cs t.1 t.2 ht
  · split at h
    · next t ht =>
      obtain ⟨rfl, rfl⟩ := Prod.mk.inj (Option.some.inj h)
      exact faithful_mark cs t.1 t.2 ht
    · obtain ⟨t, ht, e⟩ := Option.map_eq_some_iff.mp h
      obtain ⟨rfl, rfl⟩ := Prod.mk.inj e
      exact faithful_identity cs t.1 t.2 ht

lemma length_lexeme?_lt {cs r : List Char} {l : Lexeme} (h : lexeme? cs = some (l, r)) :
    r.length < cs.length := by
  obtain ⟨h1, h2⟩ := lexeme?_append h
  have := List.length_pos_iff.mpr h2
  rw [h1, List.length_append]
  omega

/-! ## whole texts -/

/-- a lexeme in front of others, unless it is a gap -/
def before (l : Lexeme) (ls : List Lexeme) : List Lexeme := if l.kind = .gap then ls else l :: ls

def lex (cs : List Char) : Option (List Lexeme) :=
  if cs = [] then some []
  else
    match _h : lexeme? cs with
    | none => none
    | some (l, r) => (lex r).map (before l)
termination_by cs.length
decreasing_by exact length_lexeme?_lt _h

lemma lex_nil : lex [] = some [] := by rw [lex, if_pos rfl]

lemma lex_of_some {cs r : List Char} {l : Lexeme} (h : lexeme? cs = some (l, r)) :
    lex cs = (lex r).map (before l) := by
  have hne : cs ≠ [] := by
    rintro rfl
    cases h
  rw [lex, if_neg hne]
  split
  · next h' =>
    rw [h] at h'
    cases h'
  · next h' =>
    rw [h] at h'
    obtain ⟨rfl, rfl⟩ := Prod.mk.inj (Option.some.inj h')
    rfl

lemma lex_of_none {cs : List Char} (hne : cs ≠ []) (h : lexeme? cs = none) : lex cs = none := by
  rw [lex, if_neg hne]
  split
  · rfl
  · next h' =>
    rw [h] at h'
    cases h'

lemma lex_of_gap {cs t r : List Char} (h : lexeme? cs = some (⟨.gap, t⟩, r)) : lex cs = lex r := by
  rw [lex_of_some h]
  exact Option.map_id'

lemma lex_of_token {cs r : List Char} {l : Lexeme} (h : lexeme? cs = some (l, r))
    (hl : l.kind ≠ .gap) : lex cs = (lex r).map (l :: ·) := by
  rw [lex_of_some h]
  exact congrArg (fun f => (lex r).map f) (funext fun ls => if_neg hl)

end Gemfile.Dot
