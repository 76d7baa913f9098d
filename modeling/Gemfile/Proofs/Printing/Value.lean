import Gemfile.Proofs.Grammar.Marks
import Gemfile.Proofs.Printing
import Gemfile.Proofs.Table

/-!
# Printed values are read back

* `Lexes cs ls`      `cs` is cut into `ls`, wherever a text that `Ends` follows it
* `Prints p cs a`    and the tokens of these, on any line, derive `a`
* `prints_commas`, `prints_bracketed`   texts put together
* `prints_value`     printed values derive the values
-/

namespace Gemfile
open Token Grammar

def Lexes (cs : List Char) (ls : List Lexeme) : Prop :=
  ∀ r, Ends r → lexemes (cs ++ r) = (ls ++ (lexemes r).1, (lexemes r).2)

/-- something that no gap before it can run into -/
def Solid (cs : List Char) : Prop := ∃ c r, cs = c :: r ∧ isGapChar c = false

def Prints {α : Type} (p : List Token → α → Prop) (cs : List Char) (a : α) : Prop :=
  ∃ ls, Solid cs ∧ Lexes cs ls ∧ ∀ line, p (mark line ls) a

lemma lexes_nil : Lexes [] [] := fun _ _ => rfl

lemma Lexes.append {cs ds : List Char} {ls ms : List Lexeme} (h : Lexes cs ls) (h' : Lexes ds ms)
    (he : ∀ r, Ends r → Ends (ds ++ r)) : Lexes (cs ++ ds) (ls ++ ms) := by
  intro r hr
  rw [List.append_assoc, h _ (he r hr), h' r hr, List.append_assoc]

/-- one character that is a token wherever it stands, and then more -/
lemma Lexes.cons {l : Lexeme} {cs : List Char} {ls : List Lexeme} (h : Lexes cs ls)
    (hl : ∀ r, Ends r → lexeme? (l.text ++ (cs ++ r)) = some (l, cs ++ r)) :
    Lexes (l.text ++ cs) (l :: ls) := by
  intro r hr
  rw [List.append_assoc, lexemes_of_some (hl r hr), h r hr]
  rfl

lemma Lexes.punct {c : Char} {cs : List Char} {ls : List Lexeme} (h : Lexes cs ls)
    (hc : c ∈ ['(', ')', ',', '[', ']', '{', '}']) : Lexes (c :: cs) (⟨.punct, [c]⟩ :: ls) :=
  Lexes.cons (l := ⟨.punct, [c]⟩) h fun _ _ => lexeme?_punct hc _

lemma Lexes.space {cs : List Char} {ls : List Lexeme} (h : Lexes cs ls) (hs : Solid cs) :
    Lexes (' ' :: cs) (⟨.gap, [' ']⟩ :: ls) := by
  obtain ⟨c, t, rfl, hc⟩ := hs
  refine Lexes.cons (l := ⟨.gap, [' ']⟩) h fun r _ => lexeme?_space fun d hd => ?_
  have h1 : some c = some d := hd
  rw [← Option.some.inj h1]
  exact hc

lemma Lexes.one {l : Lexeme} (h : ∀ r, Ends r → lexeme? (l.text ++ r) = some (l, r)) :
    Lexes l.text [l] := by
  have h1 := Lexes.cons (l := l) lexes_nil fun r hr => h r hr
  rw [List.append_nil] at h1
  exact h1

lemma Lexes.bracketed {o c : Char} {cs : List Char} {ls : List Lexeme} (h : Lexes cs ls)
    (ho : o ∈ ['(', ')', ',', '[', ']', '{', '}']) (hc : c ∈ [')', ']', '}']) :
    Lexes (o :: cs ++ [c]) (⟨.punct, [o]⟩ :: ls ++ [⟨.punct, [c]⟩]) := by
  have hp : ∀ c ∈ [')', ']', '}'], c ∈ ['(', ')', ',', '[', ']', '{', '}'] := checked (by decide)
  have he : ∀ c ∈ [')', ']', '}'], c ∈ ['(', ')', ',', ']', '}', ' ', '\n'] := checked (by decide)
  exact (h.append (lexes_nil.punct (hp c hc)) fun r _ => ends_cons (he c hc) r).punct ho

section
variable {α : Type} {p : List Token → α → Prop}

lemma Prints.imp {β : Type} {q : List Token → β → Prop} {cs : List Char} {a : α} {b : β}
    (h : Prints p cs a) (hq : ∀ ts, p ts a → q ts b) : Prints q cs b := by
  obtain ⟨ls, hs, hl, hp⟩ := h
  exact ⟨ls, hs, hl, fun line => hq _ (hp line)⟩

lemma prints_one {l : Lexeme} {a : α} (hs : Solid l.text) (hk : l.kind.isToken = true)
    (h : ∀ r, Ends r → lexeme? (l.text ++ r) = some (l, r))
    (hp : ∀ line, p [⟨l.kind, l.text, line⟩] a) : Prints p l.text a := by
  refine ⟨[l], hs, .one h, fun line => ?_⟩
  show p (if l.kind.isToken then [⟨l.kind, l.text, line⟩] else []) a
  rw [if_pos hk]
  exact hp line

lemma mark_comma (line : Nat) (ls : List Lexeme) :
    mark line (⟨.punct, [',']⟩ :: ⟨.gap, [' ']⟩ :: ls) = [⟨.punct, [','], line⟩] ++ mark line ls := rfl

lemma prints_commas {f : α → List Char} {as : List α} (hn : as ≠ [])
    (h : ∀ a ∈ as, Prints p (f a) a) :
    Prints (Separated p (Comma true)) (commas (as.map f)) as := by
  induction as with
  | nil => exact absurd rfl hn
  | cons a as ih =>
    cases as with
    | nil =>
      rw [List.map_singleton, commas_singleton]
      exact (h a List.mem_cons_self).imp fun _ => .one
    | cons b as =>
      obtain ⟨ls, hs, hl, hp⟩ := h a List.mem_cons_self
      obtain ⟨ms, hs', hl', hp'⟩ := ih (by simp) fun b hb => h b (List.mem_cons_of_mem _ hb)
      rw [List.map_cons, List.map_cons, commas_cons, ← List.map_cons]
      refine ⟨ls ++ ⟨.punct, [',']⟩ :: ⟨.gap, [' ']⟩ :: ms, ?_, ?_, fun line => ?_⟩
      · obtain ⟨c, r, hc, hg⟩ := hs
        exact ⟨c, r ++ _, by rw [hc, List.cons_append], hg⟩
      · exact hl.append ((hl'.space hs').punct (by decide)) fun r _ => ends_cons (by decide) _
      · rw [mark_append, mark_comma, ← List.append_assoc]
        refine .more (hp line) ?_ (hp' _)
        exact .mk (a := []) (b := []) newlines_nil (fun _ => rfl) rfl newlines_nil

lemma prints_bracketed {f : α → List Char} {o c : Char} {m m' : Mark}
    (ho : o ∈ ['(', ')', ',', '[', ']', '{', '}']) (hc : c ∈ [')', ']', '}'])
    (hm : ∀ line, (⟨.punct, [o], line⟩ : Token).is m = true)
    (hm' : ∀ line, (⟨.punct, [c], line⟩ : Token).is m' = true)
    (as : List α) (h : ∀ b ∈ as, Prints p (f b) b) :
    Prints (Bracketed p m m') (o :: commas (as.map f) ++ [c]) as := by
  have inner : ∃ ls, Lexes (commas (as.map f)) ls ∧ ∀ line, Listed p (mark line ls) as := by
    cases as with
    | nil => exact ⟨[], lexes_nil, fun _ => .empty⟩
    | cons a as =>
      obtain ⟨ls, _, hl, hp⟩ := prints_commas (by simp) h
      refine ⟨ls, hl, fun line => ?_⟩
      have h1 : Listed p (mark line ls ++ []) (a :: as) := .items (hp line) (.inl newlines_nil)
      rw [List.append_nil] at h1
      exact h1
  obtain ⟨ls, hl, hp⟩ := inner
  refine ⟨_, ⟨o, _, rfl, ?_⟩, hl.bracketed ho hc, fun line => ?_⟩
  · have hg : ∀ c ∈ ['(', ')', ',', '[', ']', '{', '}'], isGapChar c = false := checked (by decide)
    exact hg o ho
  · have h1 : ∀ n, Bracketed p m m'
        (⟨.punct, [o], line⟩ :: ([] ++ mark (line + lineBreaks [o]) ls) ++ [⟨.punct, [c], n⟩]) as :=
      fun n => .mk (hm line) newlines_nil (hp _) (hm' n)
    rw [mark_append]
    exact h1 _

end

/-! ## values -/

lemma unsignedValue_toDigits (negative : Bool) (n : Nat) :
    unsignedValue negative (Nat.toDigits 10 n) = .int (if negative then -(n : Int) else n) := by
  have hd := Text.isDigit_toDigits n
  have hp : ∀ c ∈ Nat.toDigits 10 n, (c != '.') = true := by
    intro c hc
    have h := hd c hc
    rw [bne_iff_ne]
    rintro rfl
    cases h
  have hw : (Nat.toDigits 10 n).takeWhile (· != '.') = Nat.toDigits 10 n := by
    have h := @List.takeWhile_append_of_pos _ _ _ [] hp
    rw [List.append_nil, List.takeWhile_nil, List.append_nil] at h
    exact h
  have hr : (Nat.toDigits 10 n).dropWhile (· != '.') = [] := by
    have h := @List.dropWhile_append_of_pos _ _ _ [] hp
    rw [List.append_nil, List.dropWhile_nil] at h
    exact h
  unfold unsignedValue
  dsimp only
  rw [hr, hw, Text.numeral_toDigits]

lemma numeralValue_print (n : Int) :
    numeralValue (sign n ++ Nat.toDigits 10 n.natAbs) = .int n := by
  unfold sign
  by_cases hn : n < 0
  · rw [if_pos hn]
    show unsignedValue true (Nat.toDigits 10 n.natAbs) = _
    rw [unsignedValue_toDigits, if_pos rfl]
    congr 2
    omega
  · rw [if_neg hn, List.nil_append]
    have hm : ∀ r, Nat.toDigits 10 n.natAbs ≠ '-' :: r := by
      intro r e
      have h := Text.isDigit_toDigits n.natAbs '-' (by rw [e]; exact List.mem_cons_self)
      cases h
    have hv : numeralValue (Nat.toDigits 10 n.natAbs) =
        unsignedValue false (Nat.toDigits 10 n.natAbs) := by
      unfold numeralValue
      split
      · next e => exact absurd e (hm _)
      · rfl
    rw [hv, unsignedValue_toDigits, if_neg (by simp)]
    congr 2
    omega

lemma solid_of_isNameStart {c : Char} (h : isNameStart c = true) (r : List Char) : Solid (c :: r) := by
  have hg : ∀ d ∈ [' ', '\t', '\r'], c ≠ d := by
    have hd : ∀ d ∈ [' ', '\t', '\r'], isNameStart d = false := checked (by decide)
    exact fun d hm => ne_of_isNameStart h (hd d hm)
  simp only [List.forall_mem_cons] at hg
  exact ⟨c, r, rfl, by simp [isGapChar, hg]⟩

lemma prints_word {w : List Char} {v : Value} (hw : Identifier w)
    (hv : ∀ line, Literal ⟨.name, w, line⟩ v) : Prints IsValue w v := by
  have hs : Solid w := by
    obtain ⟨c, s, m, rfl, hc, -⟩ := hw
    exact solid_of_isNameStart hc (s ++ m)
  exact prints_one (l := ⟨.name, w⟩) hs rfl (fun r hr => lexeme?_name hw hr) fun line =>
    .literal (hv line)

lemma prints_string (s : String) : Prints IsValue (quoted s.toList) (.str s) := by
  refine prints_one (l := ⟨.string, quoted s.toList⟩) ⟨'\x27', _, rfl, by decide⟩ rfl ?_ ?_
  · intro r _
    have h := lexeme?_string s.toList r
    unfold quoted
    rw [List.append_assoc]
    exact h
  · intro line
    have h : Literal ⟨.string, quoted s.toList, line⟩ (.str (String.ofList s.toList)) :=
      .string rfl (unquote?_escape s.toList)
    rw [String.ofList_toList] at h
    exact .literal h

lemma prints_int (n : Int) : Prints IsValue (sign n ++ Nat.toDigits 10 n.natAbs) (.int n) := by
  have hs : sign n = [] ∨ sign n = ['-'] := by
    unfold sign
    by_cases hn : n < 0
    · exact .inr (if_pos hn)
    · exact .inl (if_neg hn)
  have hd := Text.isDigit_toDigits n.natAbs
  refine prints_one (l := ⟨.number, sign n ++ Nat.toDigits 10 n.natAbs⟩) ?_ rfl
    (fun r hr => lexeme?_number hs Nat.toDigits_ne_nil hd hr) fun line => ?_
  · obtain ⟨d, ds, e⟩ := List.exists_cons_of_ne_nil (@Nat.toDigits_ne_nil n.natAbs 10)
    have hc : d.isDigit = true := hd d (by rw [e]; exact List.mem_cons_self)
    have hg : isGapChar d = false := by
      have ne : d ≠ ' ' ∧ d ≠ '\t' ∧ d ≠ '\r' := by
        refine ⟨?_, ?_, ?_⟩ <;> rintro rfl <;> cases hc
      simp [isGapChar, ne]
    rcases hs with hs | hs
    · exact ⟨d, ds, by rw [hs, e, List.nil_append], hg⟩
    · exact ⟨'-', _, by rw [hs]; rfl, by decide⟩
  · have h : Literal ⟨.number, sign n ++ Nat.toDigits 10 n.natAbs, line⟩ _ := .number rfl
    dsimp only at h
    rw [numeralValue_print] at h
    exact .literal h

lemma prints_entry {e : String × Value} (h : Prints IsValue e.2.print e.2) :
    Prints IsPair (printEntry e) e := by
  obtain ⟨ls, hs, hl, hp⟩ := h
  obtain ⟨ks, hs', hl', hp'⟩ := prints_string e.1
  have arrow : Lexes ('=' :: '>' :: ' ' :: e.2.print) (⟨.arrow, ['=', '>']⟩ :: ⟨.gap, [' ']⟩ :: ls) :=
    Lexes.cons (l := ⟨.arrow, ['=', '>']⟩) (hl.space hs) fun _ _ => lexeme?_arrow _
  have behind := arrow.space ⟨'=', _, rfl, by decide⟩
  refine ⟨ks ++ ⟨.gap, [' ']⟩ :: ⟨.arrow, ['=', '>']⟩ :: ⟨.gap, [' ']⟩ :: ls, ?_, ?_, fun line => ?_⟩
  · obtain ⟨c, r, hc, hg⟩ := hs'
    exact ⟨c, _, by rw [printEntry, hc]; rfl, hg⟩
  · have h := hl'.append behind fun r _ => ends_cons (by decide) _
    unfold printEntry
    rw [List.append_assoc]
    exact h
  · have h1 : ∀ n m, IsPair (mark line ks ++ ⟨.arrow, ['=', '>'], n⟩ :: ([] ++ mark m ls)) e :=
      fun _ _ => .arrow (hp' line) rfl newlines_nil (hp _)
    rw [mark_append]
    exact h1 _ _

theorem prints_value {v : Value} (h : v.Printable) : Prints IsValue v.print v := by
  induction h with
  | nil =>
    rw [Value.print]
    exact prints_word (identifier_of_all rfl rfl) fun line => .nil rfl
  | bool b =>
    rw [Value.print]
    cases b with
    | true =>
      exact prints_word (identifier_of_all rfl rfl) fun line => .true rfl
    | false =>
      exact prints_word (identifier_of_all rfl rfl) fun line => .false rfl
  | int n =>
    rw [Value.print]
    exact prints_int n
  | str s =>
    rw [Value.print]
    exact prints_string s
  | @list vs h ih =>
    rw [Value.print, Value.prints_eq]
    exact (prints_bracketed (by decide) (by decide) (fun _ => rfl) (fun _ => rfl) vs ih).imp
      fun _ => .list
  | @hash es hk h ih =>
    have hd : Table.putAll [] es = es := Table.putAll_of_separate (separate_of_nodup hk)
    rw [Value.print, Value.entryPrints_eq]
    have hb : Prints (Bracketed IsPair openBrace closeBrace) ('{' :: commas (es.map printEntry) ++ ['}'])
        es := prints_bracketed (by decide) (by decide) (fun _ => rfl) (fun _ => rfl) es
      fun e he => prints_entry (ih e he)
    refine hb.imp fun ts ht => ?_
    have h1 := IsValue.hash ht
    rw [hd] at h1
    exact h1

end Gemfile
