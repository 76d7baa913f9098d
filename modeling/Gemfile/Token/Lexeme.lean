import Gemfile.Text.DecimalDigit
import Gemfile.Token

/-!
# The lexemes of a dependency file

Each kind of lexeme has a function that cuts one off the front of a text: it returns the lexeme and
the rest, and `none` if the text does not start with a lexeme of that kind.

* `lexeme? cs`          cuts off a lexeme of the first kind that applies, in the order of `cuts`
* `lexeme?_append`      a cut loses nothing and takes at least one character
* `length_lexeme?_lt`   so the rest is shorter

Names are spelled with the letters, digits and underscore of ASCII; the digits of a number may be of
any script.
-/

namespace Gemfile.Token

/-- what is cut off a text, and the rest -/
abbrev Cut := Option (List Char × List Char)

def isNameStart (c : Char) : Bool := c.isAlpha || c == '_'

def isNameChar (c : Char) : Bool := c.isAlphanum || c == '_'

def isGapChar (c : Char) : Bool := c == ' ' || c == '\t' || c == '\r'

/-- the longest row of characters of a class, if there are any -/
def row (p : Char → Bool) (cs : List Char) : Cut :=
  match cs.takeWhile p with
  | [] => none
  | c :: t => some (c :: t, cs.dropWhile p)

def single (p : Char → Bool) : List Char → Cut
  | [] => none
  | c :: r => if p c then some ([c], r) else none

/-- a given character and then what `next` cuts off -/
def after (c : Char) (next : List Char → Cut) : List Char → Cut
  | [] => none
  | d :: r => if d = c then (next r).map fun t => (d :: t.1, t.2) else none

/-- what `first` cuts off, together with what `next` cuts off the rest if it applies there -/
def optionally (first next : List Char → Cut) (cs : List Char) : Cut :=
  (first cs).map fun t =>
    match next t.2 with
    | some u => (t.1 ++ u.1, u.2)
    | none => t

def either (first second : List Char → Cut) (cs : List Char) : Cut :=
  match first cs with
  | some t => some t
  | none => second cs

def newline : List Char → Cut := single fun c => c == '\n' || c == ';'

/-- a line break behind a backslash -/
def continuation : List Char → Cut :=
  after '\\' (either (single (· == '\n')) (after '\r' (single (· == '\n'))))

def gap : List Char → Cut := either (row isGapChar) continuation

def comment : List Char → Cut
  | '#' :: r => some ('#' :: r.takeWhile (· != '\n'), r.dropWhile (· != '\n'))
  | _ => none

def arrow : List Char → Cut := after '=' (single (· == '>'))

/-- what stands before the first `close`, with it -/
def upTo (close : Char) : List Char → Cut
  | [] => none
  | c :: r => if c = close then some ([c], r) else (upTo close r).map fun t => (c :: t.1, t.2)

/-- a list of words in one of three kinds of bracket -/
def bracketed : List Char → Cut :=
  either (after '[' (upTo ']')) (either (after '(' (upTo ')')) (after '{' (upTo '}')))

def words : List Char → Cut :=
  after '%' (either (after 'w' bracketed) (after 'i' bracketed))

/-- a name without a mark behind it -/
def plainName (cs : List Char) : Cut :=
  match cs with
  | [] => none
  | c :: r =>
    if isNameStart c then some (c :: r.takeWhile isNameChar, r.dropWhile isNameChar) else none

/-- a name that may end in a question or exclamation mark -/
def name : List Char → Cut := optionally plainName (single fun c => c == '?' || c == '!')

def loneColon : List Char → Cut
  | ':' :: r => if r.head? = some ':' then none else some ([':'], r)
  | _ => none

/-- a name with a colon behind it -/
def label (cs : List Char) : Cut :=
  (plainName cs).bind fun t => (loneColon t.2).map fun u => (t.1 ++ u.1, u.2)

/-- the rest of a literal that ends with `quote`: a backslash takes the character behind it along,
which may be any but a line break -/
def closing (quote : Char) : List Char → Cut
  | [] => none
  | c :: r =>
    if c = quote then some ([c], r)
    else if c = '\\' then
      match r with
      | [] => none
      | d :: r => if d = '\n' then none else (closing quote r).map fun t => (c :: d :: t.1, t.2)
    else (closing quote r).map fun t => (c :: t.1, t.2)

def string : List Char → Cut :=
  either (after '\x27' (closing '\x27')) (after '"' (closing '"'))

def symbol : List Char → Cut := after ':' (either name string)

def digits : List Char → Cut := row Text.isDecimalDigit

def unsigned : List Char → Cut := optionally digits (after '.' digits)

def number : List Char → Cut := either (after '-' unsigned) unsigned

def isPunct (c : Char) : Bool := "(),[]\x7b\x7d".toList.contains c

def punctuation : List Char → Cut := single isPunct

def cuts : List (Kind × (List Char → Cut)) :=
  [(.newline, newline), (.gap, gap), (.comment, comment), (.arrow, arrow), (.words, words),
   (.label, label), (.symbol, symbol), (.string, string), (.number, number), (.name, name),
   (.punct, punctuation)]

def firstCut (cs : List Char) : List (Kind × (List Char → Cut)) → Option (Lexeme × List Char)
  | [] => none
  | (k, cut) :: rest =>
    match cut cs with
    | some t => some (⟨k, t.1⟩, t.2)
    | none => firstCut cs rest

def lexeme? (cs : List Char) : Option (Lexeme × List Char) := firstCut cs cuts

/-! ## A cut loses nothing -/

/-- what a cut takes off a text makes up the text together with the rest, and is not empty -/
def Faithful (cut : List Char → Cut) : Prop :=
  ∀ cs t r, cut cs = some (t, r) → cs = t ++ r ∧ t ≠ []

theorem faithful_single (p : Char → Bool) : Faithful (single p) := by
  intro cs t r h
  cases cs with
  | nil => simp [single] at h
  | cons c cs =>
    simp only [single] at h
    split at h
    · obtain ⟨rfl, rfl⟩ := Prod.mk.inj (Option.some.inj h)
      simp
    · simp at h

theorem faithful_row (p : Char → Bool) : Faithful (row p) := by
  intro cs t r h
  simp only [row] at h
  split at h
  · simp at h
  · next c u hu =>
    obtain ⟨rfl, rfl⟩ := Prod.mk.inj (Option.some.inj h)
    exact ⟨by rw [← hu, List.takeWhile_append_dropWhile], by simp⟩

theorem faithful_after {c : Char} {next : List Char → Cut} (hn : Faithful next) :
    Faithful (after c next) := by
  intro cs t r h
  cases cs with
  | nil => simp [after] at h
  | cons d cs =>
    simp only [after] at h
    split at h
    · obtain ⟨u, hu, e⟩ := Option.map_eq_some_iff.mp h
      obtain ⟨rfl, rfl⟩ := Prod.mk.inj e
      exact ⟨by rw [(hn cs u.1 u.2 hu).1]; rfl, by simp⟩
    · simp at h

theorem faithful_optionally {first next : List Char → Cut} (hf : Faithful first)
    (hn : Faithful next) : Faithful (optionally first next) := by
  intro cs t r h
  obtain ⟨u, hu, e⟩ := Option.map_eq_some_iff.mp h
  obtain ⟨h1, h2⟩ := hf cs u.1 u.2 hu
  split at e
  · next v hv =>
    obtain ⟨rfl, rfl⟩ := Prod.mk.inj e
    obtain ⟨h3, _⟩ := hn u.2 v.1 v.2 hv
    exact ⟨by rw [h1, h3, List.append_assoc], by simp [h2]⟩
  · subst e
    exact ⟨h1, h2⟩

theorem faithful_either {first second : List Char → Cut} (hf : Faithful first)
    (hs : Faithful second) : Faithful (either first second) := by
  intro cs t r h
  simp only [either] at h
  split at h
  · next u hu =>
    obtain rfl := Option.some.inj h
    exact hf cs t r hu
  · exact hs cs t r h

theorem faithful_newline : Faithful newline := faithful_single _

theorem faithful_gap : Faithful gap :=
  faithful_either (faithful_row _)
    (faithful_after (faithful_either (faithful_single _) (faithful_after (faithful_single _))))

theorem faithful_comment : Faithful comment := by
  intro cs t r h
  unfold comment at h
  split at h
  · next cs =>
    obtain ⟨rfl, rfl⟩ := Prod.mk.inj (Option.some.inj h)
    exact ⟨by rw [List.cons_append, List.takeWhile_append_dropWhile], by simp⟩
  · simp at h

theorem faithful_arrow : Faithful arrow := faithful_after (faithful_single _)

theorem faithful_upTo (close : Char) : Faithful (upTo close) := by
  intro cs
  induction cs with
  | nil => simp [upTo]
  | cons c cs ih =>
    intro t r h
    simp only [upTo] at h
    split at h
    · obtain ⟨rfl, rfl⟩ := Prod.mk.inj (Option.some.inj h)
      simp
    · obtain ⟨u, hu, e⟩ := Option.map_eq_some_iff.mp h
      obtain ⟨rfl, rfl⟩ := Prod.mk.inj e
      exact ⟨by rw [(ih u.1 u.2 hu).1]; rfl, by simp⟩

theorem faithful_bracketed : Faithful bracketed :=
  faithful_either (faithful_after (faithful_upTo _))
    (faithful_either (faithful_after (faithful_upTo _)) (faithful_after (faithful_upTo _)))

theorem faithful_words : Faithful words :=
  faithful_after
    (faithful_either (faithful_after faithful_bracketed) (faithful_after faithful_bracketed))

theorem faithful_plainName : Faithful plainName := by
  intro cs t r h
  cases cs with
  | nil => simp [plainName] at h
  | cons c cs =>
    simp only [plainName] at h
    split at h
    · obtain ⟨rfl, rfl⟩ := Prod.mk.inj (Option.some.inj h)
      exact ⟨by rw [List.cons_append, List.takeWhile_append_dropWhile], by simp⟩
    · simp at h

theorem faithful_name : Faithful name :=
  faithful_optionally faithful_plainName (faithful_single _)

theorem faithful_loneColon : Faithful loneColon := by
  intro cs t r h
  unfold loneColon at h
  split at h
  · split at h
    · simp at h
    · obtain ⟨rfl, rfl⟩ := Prod.mk.inj (Option.some.inj h)
      simp
  · simp at h

theorem faithful_label : Faithful label := by
  intro cs t r h
  obtain ⟨u, hu, h⟩ := Option.bind_eq_some_iff.mp h
  obtain ⟨v, hv, e⟩ := Option.map_eq_some_iff.mp h
  obtain ⟨rfl, rfl⟩ := Prod.mk.inj e
  obtain ⟨h1, h2⟩ := faithful_plainName cs u.1 u.2 hu
  obtain ⟨h3, _⟩ := faithful_loneColon u.2 v.1 v.2 hv
  exact ⟨by rw [h1, h3, List.append_assoc], by simp [h2]⟩

theorem closing_nil (quote : Char) : closing quote [] = none := by rw [closing]

/-- the four things a literal can go on with: its end, a backslash with or without a character to
take along, and any other character -/
theorem closing_cons (quote c : Char) (r : List Char) :
    closing quote (c :: r) =
      if c = quote then some ([c], r)
      else if c = '\\' then
        match r with
        | [] => none
        | d :: r => if d = '\n' then none else (closing quote r).map fun t => (c :: d :: t.1, t.2)
      else (closing quote r).map fun t => (c :: t.1, t.2) := by
  rw [closing.eq_def]

theorem faithful_closing (quote : Char) : Faithful (closing quote) := by
  suffices h : ∀ n, ∀ cs : List Char, cs.length ≤ n → ∀ t r, closing quote cs = some (t, r) →
      cs = t ++ r ∧ t ≠ [] from fun cs => h cs.length cs (Nat.le_refl _)
  intro n
  induction n with
  | zero =>
    intro cs hn t r e
    rw [List.length_eq_zero_iff.mp (Nat.le_zero.mp hn), closing_nil] at e
    simp at e
  | succ n ih =>
    intro cs hn t r e
    cases cs with
    | nil => simp [closing_nil] at e
    | cons c cs =>
      rw [List.length_cons] at hn
      rw [closing_cons] at e
      split at e
      · obtain ⟨rfl, rfl⟩ := Prod.mk.inj (Option.some.inj e)
        simp
      · split at e
        · cases cs with
          | nil => simp at e
          | cons d cs =>
            rw [List.length_cons] at hn
            simp only at e
            split at e
            · simp at e
            · obtain ⟨u, hu, e⟩ := Option.map_eq_some_iff.mp e
              obtain ⟨rfl, rfl⟩ := Prod.mk.inj e
              exact ⟨by rw [(ih cs (by omega) u.1 u.2 hu).1]; rfl, by simp⟩
        · obtain ⟨u, hu, e⟩ := Option.map_eq_some_iff.mp e
          obtain ⟨rfl, rfl⟩ := Prod.mk.inj e
          exact ⟨by rw [(ih cs (by omega) u.1 u.2 hu).1]; rfl, by simp⟩

theorem faithful_string : Faithful string :=
  faithful_either (faithful_after (faithful_closing _)) (faithful_after (faithful_closing _))

theorem faithful_symbol : Faithful symbol :=
  faithful_after (faithful_either faithful_name faithful_string)

theorem faithful_unsigned : Faithful unsigned :=
  faithful_optionally (faithful_row _) (faithful_after (faithful_row _))

theorem faithful_number : Faithful number :=
  faithful_either (faithful_after faithful_unsigned) faithful_unsigned

theorem faithful_cuts : ∀ k ∈ cuts, Faithful k.2 := by
  simp only [cuts, List.forall_mem_cons, List.not_mem_nil, false_implies, implies_true, and_true]
  exact ⟨faithful_newline, faithful_gap, faithful_comment, faithful_arrow, faithful_words,
    faithful_label, faithful_symbol, faithful_string, faithful_number, faithful_name,
    faithful_single _⟩

theorem firstCut_append {cs : List Char} {ks : List (Kind × (List Char → Cut))}
    (hk : ∀ k ∈ ks, Faithful k.2) {l : Lexeme} {r : List Char}
    (h : firstCut cs ks = some (l, r)) : cs = l.text ++ r ∧ l.text ≠ [] := by
  induction ks with
  | nil => simp [firstCut] at h
  | cons k ks ih =>
    simp only [firstCut] at h
    split at h
    · next t ht =>
      obtain ⟨rfl, rfl⟩ := Prod.mk.inj (Option.some.inj h)
      exact hk k (by simp) cs t.1 t.2 ht
    · exact ih (fun k' hk' => hk k' (by simp [hk'])) h

theorem lexeme?_append {cs : List Char} {l : Lexeme} {r : List Char}
    (h : lexeme? cs = some (l, r)) : cs = l.text ++ r ∧ l.text ≠ [] :=
  firstCut_append faithful_cuts h

theorem length_lexeme?_lt {cs : List Char} {l : Lexeme} {r : List Char}
    (h : lexeme? cs = some (l, r)) : r.length < cs.length := by
  obtain ⟨h1, h2⟩ := lexeme?_append h
  have := List.length_pos_iff.mpr h2
  rw [h1, List.length_append]
  omega

theorem lexeme?_nil : lexeme? [] = none := rfl

end Gemfile.Token
