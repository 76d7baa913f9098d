import Gemfile.Proofs.Surface.Forms

/-!
# Where forms can be exchanged

* `Exchange.of_label`        a label of a scanned text can be a symbol with an arrow behind it
* `inner_value`, `inner_call`   no `do` and no `end` is part of a value or of arguments
* `balanced_of_sequence`     so they are balanced in statements
* `Step.of_block`            the `do` and the `end` of a block of the grammar can be braces if the arguments
                             in front are in round brackets or absent
-/

namespace Gemfile.Surface
open Token Grammar Statement

/-! ## labels -/

theorem Exchange.of_label {cs : List Char} {ts : List Token} (h : scan cs = .ok ts) {t : Token}
    (ht : t ∈ ts) (hk : t.kind = .label) :
    Exchange [t] [⟨.symbol, ':' :: t.text.dropLast, t.line⟩, ⟨.arrow, "=>".toList, t.line⟩] := by
  obtain ⟨c, k, htext, hc⟩ := scan_label h t ht hk
  have name : t.text = t.text.dropLast ++ [':'] := by rw [htext, List.dropLast_concat]
  have key : t.text.dropLast = c :: k := by rw [htext, List.dropLast_concat]
  refine .respelled (.label hk name ?_ ?_ rfl rfl ((is_iff _ _).mpr ⟨rfl, rfl⟩))
  · rw [key]
    exact List.cons_ne_nil c k
  · rw [key, quoted_cons]
    rintro (rfl | rfl)
    · exact absurd hc (by decide)
    · exact absurd hc (by decide)

/-! ## blocks -/

/-- no token is a `do` or an `end` -/
def Inner (ts : List Token) : Prop := ∀ t ∈ ts, delimits t = false

section
variable {α : Type} {ts us : List Token} {t : Token}

lemma Inner.append (h : Inner ts) (h' : Inner us) : Inner (ts ++ us) :=
  List.forall_mem_append.mpr ⟨h, h'⟩

lemma Inner.cons (h : delimits t = false) (h' : Inner ts) : Inner (t :: ts) :=
  List.forall_mem_cons.mpr ⟨h, h'⟩

lemma inner_nil : Inner [] := fun _ h => absurd h List.not_mem_nil

lemma delimits_of_is {m : Mark} (h : t.is m = true) (hd : m ≠ word "do") (he : m ≠ word "end") :
    delimits t = false := by
  unfold delimits
  rw [not_is_of_is h hd, not_is_of_is h he]
  rfl

lemma delimits_of_punct {m : Mark} (hm : m.kind = .punct) (h : t.is m = true) : delimits t = false :=
  delimits_of_kind (by rw [kind_of_is h, hm]; decide)

lemma inner_newlines (h : Newlines ts) : Inner ts :=
  fun t ht => delimits_of_kind (by rw [h t ht]; decide)

lemma inner_comma {b : Bool} (h : Comma b ts) : Inner ts := by
  obtain ⟨hn, -, hc, hn'⟩ := h
  exact (inner_newlines hn).append ((inner_newlines hn').cons (delimits_of_punct rfl hc))

lemma inner_separated {sep : List Token → Prop} {as : List α}
    (h : Separated (fun ts _ => Inner ts) sep ts as) (hs : ∀ ss, sep ss → Inner ss) : Inner ts := by
  induction h with
  | one h => exact h
  | more h hc _ ih => exact (h.append (hs _ hc)).append ih

lemma inner_listed {as : List α} (h : Listed (fun ts _ => Inner ts) ts as) : Inner ts := by
  cases h with
  | empty => exact inner_nil
  | items hs ht =>
    refine (inner_separated hs fun _ => inner_comma).append ?_
    rcases ht with ht | ht
    · exact inner_newlines ht
    · exact inner_comma ht

lemma inner_bracketed {o c : Mark} {as : List α} (h : Bracketed (fun ts _ => Inner ts) o c ts as)
    (ho : o.kind = .punct) (hc : c.kind = .punct) : Inner ts := by
  obtain ⟨ht, hn, hl, hu⟩ := h
  have inside := (inner_newlines hn).append (inner_listed hl)
  exact (inside.cons (delimits_of_punct ho ht)).append (inner_nil.cons (delimits_of_punct hc hu))

lemma Literal.not_delimits {v : Value} (h : Literal t v) : delimits t = false := by
  cases h with
  | string hk => exact delimits_of_kind (by rw [hk]; decide)
  | symbol hk => exact delimits_of_kind (by rw [hk]; decide)
  | quotedSymbol hk => exact delimits_of_kind (by rw [hk]; decide)
  | number hk => exact delimits_of_kind (by rw [hk]; decide)
  | words hk => exact delimits_of_kind (by rw [hk]; decide)
  | true ht => exact delimits_of_is ht (by decide) (by decide)
  | false ht => exact delimits_of_is ht (by decide) (by decide)
  | nil ht => exact delimits_of_is ht (by decide) (by decide)

lemma inner_value : (∀ ts v, IsValue ts v → Inner ts) ∧ ∀ ts e, IsPair ts e → Inner ts := by
  refine IsValue.induct (P := fun ts _ => Inner ts) (Q := fun ts _ => Inner ts) ?_ ?_ ?_ ?_ ?_
  · exact fun t v h => inner_nil.cons (Literal.not_delimits h)
  · exact fun ts vs h => inner_bracketed h rfl rfl
  · exact fun ts es h => inner_bracketed h rfl rfl
  · intro t nl ts v ht hn h
    exact ((inner_newlines hn).append h).cons (delimits_of_kind (by rw [ht]; decide))
  · intro u ks nl ts k v hk hu hn h
    exact hk.append (((inner_newlines hn).append h).cons (delimits_of_is hu (by decide) (by decide)))

lemma inner_argument {a : Argument} (h : IsArgument ts a) : Inner ts := by
  cases h with
  | value h => exact inner_value.1 _ _ h
  | pair h => exact inner_value.2 _ _ h

lemma inner_arguments {b : Bool} {as : List Argument} (h : Separated IsArgument (Comma b) ts as) :
    Inner ts :=
  inner_separated (h.mono fun _ _ => inner_argument) fun _ => inner_comma

lemma inner_call {f : Grammar.Form} {c : Call} (h : IsCall f ts c) : Inner ts := by
  cases h with
  | absent => exact inner_nil
  | empty ho hn hc =>
    have front := (inner_newlines hn).cons (delimits_of_punct rfl ho)
    exact front.append (inner_nil.cons (delimits_of_punct rfl hc))
  | bracketed ho hn hs hn' hc =>
    have inside := ((inner_newlines hn).append (inner_arguments hs)).append (inner_newlines hn')
    exact (inside.cons (delimits_of_punct rfl ho)).append (inner_nil.cons (delimits_of_punct rfl hc))
  | bare hs => exact inner_arguments hs

lemma Balanced.append (h : Balanced ts) (h' : Balanced us) : Balanced (ts ++ us) := by
  induction h with
  | nil => exact h'
  | token ht _ ih => exact .token ht ih
  | block ho hu he _ _ ih =>
    rw [List.append_assoc]
    exact .block ho hu he ih

lemma Inner.balanced (h : Inner ts) : Balanced ts := by
  induction ts with
  | nil => exact .nil
  | cons t ts ih =>
    obtain ⟨ht, h⟩ := List.forall_mem_cons.mp h
    exact .token ht (ih h)

theorem balanced_of_sequence {ss : List Statement} (h : IsSequence ts ss) : Balanced ts := by
  refine IsStatement.induct (P := fun ts _ => Balanced ts) (Q := fun ts _ => Balanced ts)
    ?_ ?_ ?_ ?_ ts ss h
  · exact fun t f ts c ht hc => ((inner_call hc).cons (delimits_of_isName ht)).balanced
  · intro t o e f ts us c ss ht hc hoe hu
    have front := ((inner_call hc).cons (delimits_of_isName ht)).balanced
    refine front.append ?_
    rcases hoe with ⟨ho, he⟩ | ⟨-, ho, he⟩
    · exact .block ho hu he .nil
    · exact .token (delimits_of_punct rfl ho) (hu.append (.token (delimits_of_punct rfl he) .nil))
  · exact fun nl hn => (inner_newlines hn).balanced
  · intro nl ts nl' ss hn hs hn'
    refine ((inner_newlines hn).balanced.append ?_).append (inner_newlines hn').balanced
    induction hs with
    | one h => exact h
    | more h hb _ ih => exact (h.append (inner_newlines hb.2).balanced).append ih

/-- the token in front of a block: a closing bracket, or the name itself -/
lemma exists_opensBlock {f : Grammar.Form} {c : Call} (ht : IsName t) (h : IsCall f ts c)
    (hf : f ≠ .bare) : ∃ a p, t :: ts = a ++ [p] ∧ opensBlock p = true := by
  cases h with
  | absent => exact ⟨[], t, rfl, Bool.or_eq_true_iff.mpr (.inr ((startsStatement_iff t).mpr ht))⟩
  | @empty o u nl _ _ hu => exact ⟨t :: o :: nl, u, rfl, Bool.or_eq_true_iff.mpr (.inl hu)⟩
  | @bracketed o u nl us nl' _ _ _ _ _ _ hu =>
    exact ⟨t :: o :: (nl ++ us ++ nl'), u, rfl, Bool.or_eq_true_iff.mpr (.inl hu)⟩
  | bare => exact absurd rfl hf

theorem Step.of_block {f : Grammar.Form} {c : Call} {ss : List Statement} {o e o' e' : Token}
    (ht : IsName t) (hc : IsCall f ts c) (hf : f ≠ .bare) (ho : o.is (word "do") = true)
    (hs : IsSequence us ss) (he : e.is (word "end") = true) (ho' : o'.is openBrace = true)
    (he' : e'.is closeBrace = true) (a b : List Token) :
    Step (a ++ (t :: ts ++ (o :: us ++ [e])) ++ b) (a ++ (t :: ts ++ (o' :: us ++ [e'])) ++ b) := by
  obtain ⟨z, p, front, hp⟩ := exists_opensBlock ht hc hf
  have step := Step.mk (a ++ z) b (.block hp ho (balanced_of_sequence hs) he ho' he')
  rw [front]
  simpa using step

end

end Gemfile.Surface
