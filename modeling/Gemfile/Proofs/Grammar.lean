import Gemfile.Statement.OfTokens
import Mathlib.Tactic.Lemma

/-!
# The grammar of dependency files

Which tokens make up a value, an argument, a statement and a file, said without reading them: each
relation holds of all the tokens of what it describes and of no others.  Every production is the
concatenation of its parts, and nothing looks ahead.

* `Separated p sep`   `p (sep p)*`
* `Bracketed p`       `'[' NL* [p (NL* ',' NL* p)* NL* [',' NL*]] ']'`, with the given brackets
* `IsValue ts v`      a literal, a list or a hash
* `IsPair ts e`       `LABEL NL* value` or `value '=>' NL* value`
* `IsCall f ts c`     the arguments of a statement, with round brackets, without, or none at all
* `IsStatement`, `IsSequence`, `IsProgram`

`CallOf as c` tells which call some arguments make up: positional ones before the keyword ones, and a
hash that comes last is the options if there are no keyword arguments.
-/

namespace Gemfile.Grammar
open Token

/-! ## newlines, commas and brackets -/

/-- `NL*` -/
def Newlines (ts : List Token) : Prop := ∀ t ∈ ts, t.kind = .newline

/-- `NL+` -/
def Break (ts : List Token) : Prop := ts ≠ [] ∧ Newlines ts

/-- `NL* ',' NL*`; without brackets, no newline may stand before the comma -/
inductive Comma (bracketed : Bool) : List Token → Prop
  | mk {a : List Token} {c : Token} {b : List Token} :
      Newlines a → (bracketed = false → a = []) → c.is comma → Newlines b →
      Comma bracketed (a ++ c :: b)

/-- `NL* [',' NL*]` -/
def Trailing (ts : List Token) : Prop := Newlines ts ∨ Comma true ts

section
variable {α : Type}

inductive Separated (p : List Token → α → Prop) (sep : List Token → Prop) :
    List Token → List α → Prop
  | one {ts : List Token} {a : α} : p ts a → Separated p sep ts [a]
  | more {ts ss us : List Token} {a : α} {as : List α} :
      p ts a → sep ss → Separated p sep us as → Separated p sep (ts ++ ss ++ us) (a :: as)

/-- `[p (NL* ',' NL* p)* NL* [',' NL*]]` -/
inductive Listed (p : List Token → α → Prop) : List Token → List α → Prop
  | empty : Listed p [] []
  | items {ts tail : List Token} {as : List α} :
      Separated p (Comma true) ts as → Trailing tail → Listed p (ts ++ tail) as

inductive Bracketed (p : List Token → α → Prop) (o c : Mark) : List Token → List α → Prop
  | mk {t u : Token} {nl ts : List Token} {as : List α} :
      t.is o → Newlines nl → Listed p ts as → u.is c →
      Bracketed p o c (t :: (nl ++ ts) ++ [u]) as

end

section
variable {α : Type} {p : List Token → α → Prop}

/-- what is separated begins as its first part does -/
lemma Separated.head {sep : List Token → Prop} {P : Token → Prop} {ts : List Token} {as : List α}
    (h : Separated p sep ts as) (hp : ∀ ts a, p ts a → ∃ t us, ts = t :: us ∧ P t) :
    ∃ t us, ts = t :: us ∧ P t := by
  cases h with
  | one ha => exact hp _ _ ha
  | more ha _ _ =>
    obtain ⟨t, us, rfl, ht⟩ := hp _ _ ha
    exact ⟨t, _, rfl, ht⟩

lemma Separated.ne_nil {sep : List Token → Prop} {ts : List Token} {as : List α}
    (h : Separated p sep ts as) : as ≠ [] := by
  cases h <;> simp

lemma Separated.of_singleton {sep : List Token → Prop} {ts : List Token} {a : α}
    (h : Separated p sep ts [a]) : p ts a := by
  generalize e : [a] = as at h
  cases h with
  | one ha =>
    obtain ⟨rfl, -⟩ := List.cons.inj e
    exact ha
  | more _ _ hs => exact absurd (List.cons.inj e).2.symm hs.ne_nil

lemma Separated.map {β : Type} {f : β → α} {sep : List Token → Prop} {ts : List Token}
    {bs : List β} (h : Separated (fun ts b => p ts (f b)) sep ts bs) :
    Separated p sep ts (bs.map f) := by
  induction h with
  | one hb => exact .one hb
  | more hb hs _ ih => exact .more hb hs ih

lemma Separated.mono {q : List Token → α → Prop} (hq : ∀ ts a, p ts a → q ts a)
    {sep : List Token → Prop} {ts : List Token} {as : List α} (h : Separated p sep ts as) :
    Separated q sep ts as := by
  induction h with
  | one ha => exact .one (hq _ _ ha)
  | more ha hs _ ih => exact .more (hq _ _ ha) hs ih

lemma Bracketed.mono {q : List Token → α → Prop} (hq : ∀ ts a, p ts a → q ts a) {o c : Mark}
    {ts : List Token} {as : List α} (h : Bracketed p o c ts as) : Bracketed q o c ts as := by
  obtain ⟨ho, hn, hl, hc⟩ := h
  cases hl with
  | empty => exact .mk ho hn .empty hc
  | items hs ht => exact .mk ho hn (.items (hs.mono hq) ht) hc

lemma Listed.last {ts nl : List Token} {a : α} (h : p ts a) (hn : Newlines nl) :
    Listed p (ts ++ nl) [a] :=
  .items (.one h) (.inl hn)

lemma Listed.cons {ts ss us : List Token} {a : α} {as : List α} (h : p ts a) (hs : Comma true ss)
    (hu : Listed p us as) : Listed p (ts ++ ss ++ us) (a :: as) := by
  cases hu with
  | empty =>
    rw [List.append_nil]
    exact .items (.one h) (.inr hs)
  | items hi ht =>
    rw [← List.append_assoc]
    exact .items (.more h hs hi) ht

/-- a list is empty, has a last item without a comma behind it, or goes on behind a comma -/
lemma Listed.induct {motive : (ts : List Token) → (as : List α) → Listed p ts as → Prop}
    (empty : motive [] [] .empty)
    (last : ∀ ts nl a (h : p ts a) (hn : Newlines nl), motive (ts ++ nl) [a] (.last h hn))
    (cons : ∀ ts ss us a as (h : p ts a) (hs : Comma true ss) (hu : Listed p us as),
      motive us as hu → motive (ts ++ ss ++ us) (a :: as) (.cons h hs hu))
    {ts : List Token} {as : List α} (h : Listed p ts as) : motive ts as h := by
  cases h with
  | empty => exact empty
  | @items ts tail as hs ht =>
    induction hs with
    | @one ts a ha =>
      rcases ht with hn | hc
      · exact last ts tail a ha hn
      · have hm := cons ts tail [] a [] ha hc .empty empty
        simp only [List.append_nil] at hm
        exact hm
    | @more ts ss us a as ha hc hs ih =>
      have hm := cons ts ss (us ++ tail) a as ha hc (.items hs ht) ih
      simp only [← List.append_assoc] at hm
      exact hm

end

/-! ## values -/

/-- a quotation mark comes first -/
def Quoted (cs : List Char) : Prop := cs.head? = some '\x27' ∨ cs.head? = some '"'

/-- a token that is a value by itself; a quoted text that interpolates is none -/
inductive Literal : Token → Value → Prop
  | string {t : Token} {s : List Char} :
      t.kind = .string → unquote? t.text = some s → Literal t (.str (String.ofList s))
  | symbol {t : Token} :
      t.kind = .symbol → ¬ Quoted (t.text.drop 1) →
      Literal t (.str (String.ofList (t.text.drop 1)))
  | quotedSymbol {t : Token} {s : List Char} :
      t.kind = .symbol → Quoted (t.text.drop 1) → unquote? (t.text.drop 1) = some s →
      Literal t (.str (String.ofList s))
  | number {t : Token} : t.kind = .number → Literal t (numeralValue t.text)
  | words {t : Token} : t.kind = .words → Literal t (wordsValue t.text)
  | true {t : Token} : t.is (word "true") → Literal t (.bool true)
  | false {t : Token} : t.is (word "false") → Literal t (.bool false)
  | nil {t : Token} : t.is (word "nil") → Literal t .nil

mutual

/-- `literal | '[' values ']' | '{' pairs '}'`; of two pairs with one key the later one counts -/
inductive IsValue : List Token → Value → Prop
  | literal {t : Token} {v : Value} : Literal t v → IsValue [t] v
  | list {ts : List Token} {vs : List Value} :
      Bracketed IsValue openList closeList ts vs → IsValue ts (.list vs)
  | hash {ts : List Token} {es : List (String × Value)} :
      Bracketed IsPair openBrace closeBrace ts es → IsValue ts (.hash (Table.putAll [] es))

/-- `LABEL NL* value | value '=>' NL* value`, where the left value is a text -/
inductive IsPair : List Token → String × Value → Prop
  | label {t : Token} {nl ts : List Token} {v : Value} :
      t.kind = .label → Newlines nl → IsValue ts v → IsPair (t :: (nl ++ ts)) (t.labelName, v)
  | arrow {u : Token} {ks nl ts : List Token} {k : String} {v : Value} :
      IsValue ks (.str k) → u.is arrowSign → Newlines nl → IsValue ts v →
      IsPair (ks ++ u :: (nl ++ ts)) (k, v)

end

/-- induction on the derivations of values and pairs, with the parts already put in their place -/
theorem IsValue.induct {P : List Token → Value → Prop} {Q : List Token → String × Value → Prop}
    (literal : ∀ t v, Literal t v → P [t] v)
    (list : ∀ ts vs, Bracketed P openList closeList ts vs → P ts (.list vs))
    (hash : ∀ ts es, Bracketed Q openBrace closeBrace ts es → P ts (.hash (Table.putAll [] es)))
    (label : ∀ t nl ts v, t.kind = .label → Newlines nl → P ts v →
      Q (t :: (nl ++ ts)) (t.labelName, v))
    (arrow : ∀ u ks nl ts k v, P ks (.str k) → u.is arrowSign = true → Newlines nl → P ts v →
      Q (ks ++ u :: (nl ++ ts)) (k, v)) :
    (∀ ts v, IsValue ts v → P ts v) ∧ ∀ ts e, IsPair ts e → Q ts e := by
  have h : ∀ ts v, IsValue ts v → P ts v := fun ts v h =>
    @IsValue.rec (fun ts v _ => P ts v) (fun ts e _ => Q ts e)
      (fun ts vs _ => Bracketed P openList closeList ts vs)
      (fun ts es _ => Bracketed Q openBrace closeBrace ts es)
      (fun ts vs _ => Listed P ts vs) (fun ts es _ => Listed Q ts es)
      (fun ts vs _ => Separated P (Comma true) ts vs)
      (fun ts es _ => Separated Q (Comma true) ts es)
      (fun h => literal _ _ h) (fun _ h => list _ _ h) (fun _ h => hash _ _ h)
      (fun hk hn _ h => label _ _ _ _ hk hn h) (fun _ hu hn _ h h' => arrow _ _ _ _ _ _ h hu hn h')
      (fun ht hn _ hu h => .mk ht hn h hu) (fun ht hn _ hu h => .mk ht hn h hu)
      .empty (fun _ ht h => .items h ht) .empty (fun _ ht h => .items h ht)
      (fun _ h => .one h) (fun _ hs _ h h' => .more h hs h')
      (fun _ h => .one h) (fun _ hs _ h h' => .more h hs h') ts v h
  refine ⟨h, fun ts e he => ?_⟩
  cases he with
  | label hk hn hv => exact label _ _ _ _ hk hn (h _ _ hv)
  | arrow hk hu hn hv => exact arrow _ _ _ _ _ _ (h _ _ hk) hu hn (h _ _ hv)

/-! ## arguments -/

inductive Argument where
  | positional (v : Value)
  | keyword (e : String × Value)

/-- `value | pair` -/
inductive IsArgument : List Token → Argument → Prop
  | value {ts : List Token} {v : Value} : IsValue ts v → IsArgument ts (.positional v)
  | pair {ts : List Token} {e : String × Value} : IsPair ts e → IsArgument ts (.keyword e)

/-- the call that some arguments make up -/
inductive CallOf : List Argument → Call → Prop
  | plain {vs : List Value} {es : List (String × Value)} :
      (es = [] → ∀ h, vs.getLast? ≠ some (.hash h)) →
      CallOf (vs.map .positional ++ es.map .keyword) ⟨vs, Table.putAll [] es⟩
  | trailingHash {vs : List Value} {h : Options} :
      CallOf (vs.map .positional ++ [.positional (.hash h)]) ⟨vs, h⟩

inductive Form where
  | absent
  | bracketed
  | bare
deriving DecidableEq

/-- `[call]` -/
inductive IsCall : Form → List Token → Call → Prop
  | absent : IsCall .absent [] Call.empty
  | empty {t u : Token} {nl : List Token} :
      t.is openCall → Newlines nl → u.is closeCall → IsCall .bracketed (t :: nl ++ [u]) Call.empty
  | bracketed {t u : Token} {nl ts nl' : List Token} {as : List Argument} {c : Call} :
      t.is openCall → Newlines nl → Separated IsArgument (Comma true) ts as → Newlines nl' →
      u.is closeCall → CallOf as c → IsCall .bracketed (t :: (nl ++ ts ++ nl') ++ [u]) c
  | bare {t : Token} {ts : List Token} {as : List Argument} {c : Call} :
      Separated IsArgument (Comma false) (t :: ts) as → ¬ t.is openBrace → ¬ t.is openCall →
      CallOf as c → IsCall .bare (t :: ts) c

/-! ## statements -/

def IsName (t : Token) : Prop := t.kind = .name ∧ t.spelling ∉ Statement.reserved

mutual

/-- `NAME [call] [do seq end | '{' seq '}']`, with braces only behind round brackets or no call -/
inductive IsStatement : List Token → Statement → Prop
  | plain {t : Token} {f : Form} {ts : List Token} {c : Call} :
      IsName t → IsCall f ts c →
      IsStatement (t :: ts) ⟨t.spelling, c.args, c.options, none, t.line⟩
  | block {t o e : Token} {f : Form} {ts us : List Token} {c : Call} {ss : List Statement} :
      IsName t → IsCall f ts c → o.is (word "do") → IsSequence us ss → e.is (word "end") →
      IsStatement (t :: ts ++ (o :: us ++ [e])) ⟨t.spelling, c.args, c.options, some ss, t.line⟩
  | braces {t o e : Token} {f : Form} {ts us : List Token} {c : Call} {ss : List Statement} :
      IsName t → IsCall f ts c → f ≠ .bare → o.is openBrace → IsSequence us ss →
      e.is closeBrace →
      IsStatement (t :: ts ++ (o :: us ++ [e])) ⟨t.spelling, c.args, c.options, some ss, t.line⟩

/-- `NL* [stmt (NL+ stmt)* NL*]` -/
inductive IsSequence : List Token → List Statement → Prop
  | empty {nl : List Token} : Newlines nl → IsSequence nl []
  | statements {nl ts nl' : List Token} {ss : List Statement} :
      Newlines nl → Separated IsStatement Break ts ss → Newlines nl' →
      IsSequence (nl ++ ts ++ nl') ss

end

inductive IsProgram : List Token → List Statement → Prop
  | mk {e : Token} {ts : List Token} {ss : List Statement} :
      IsSequence ts ss → e.kind = .endOfFile → IsProgram (ts ++ [e]) ss

end Gemfile.Grammar
