import Gemfile.Proofs.Cursor.Agreement
import Gemfile.Proofs.Grammar.Value
import Gemfile.Proofs.Rendering.Lexing

/-!
# Values are read inside of the tokens

* `wellSpelled_of_scan`   scanned literals are spelled so that they can be read
* `literal_eq`            such a literal is read as what it stands for
* `valuesAgree`           the readers of values agree with what is read from the tokens left
-/

namespace Gemfile.Cursor
open Token

/-! ## literals -/

/-- what the readers rely on: a quoted text has its quotes, a symbol its name, and a number its digits -/
structure WellSpelled (t : Token) : Prop where
  string : t.kind = .string → t.text ≠ []
  symbol : t.kind = .symbol → t.text.drop 1 ≠ []
  number : t.kind = .number → isNumeral t.text = true

lemma isDigits_of_cut {cs w r : List Char} (h : Token.digits cs = some (w, r)) :
    isDigits w = true ∧ ∀ c ∈ w, Text.isDecimalDigit c = true := by
  have hne : w ≠ [] := (faithful_row _ _ _ _ h).2
  have hw : w = cs.takeWhile Text.isDecimalDigit := by
    unfold digits row at h
    split at h
    · cases h
    · next e =>
      obtain ⟨rfl, -⟩ := Prod.mk.inj (Option.some.inj h)
      exact e.symm
  have hall : ∀ c ∈ w, Text.isDecimalDigit c = true := by
    rw [hw]
    exact List.all_eq_true.mp List.all_takeWhile
  refine ⟨?_, hall⟩
  unfold isDigits
  rw [List.all_eq_true.mpr hall]
  cases w with
  | nil => exact absurd rfl hne
  | cons c w => rfl

lemma isUnsigned_of_cut {cs w r : List Char} (h : Token.unsigned cs = some (w, r)) :
    isUnsigned w = true ∧ w.head? ≠ some '-' := by
  obtain ⟨⟨u, s⟩, hu, e⟩ := Option.map_eq_some_iff.mp h
  obtain ⟨hd, hall⟩ := isDigits_of_cut hu
  have hdot : ∀ c ∈ u, (c != '.') = true := by
    intro c hc
    rw [bne_iff_ne]
    rintro rfl
    exact absurd (hall _ hc) (by decide)
  have hhead : ∀ v, (u ++ v).head? ≠ some '-' := by
    intro v hv
    cases u with
    | nil => exact absurd hd (by decide)
    | cons c u =>
      obtain rfl : c = '-' := by simpa using hv
      exact absurd (hall _ List.mem_cons_self) (by decide)
  split at e
  · next t ht =>
    -- a point, and digits behind it
    obtain ⟨t, r'⟩ := t
    obtain ⟨_, v, -, rfl, hv⟩ := after_text ht
    obtain ⟨rfl, -⟩ := Prod.mk.inj e
    refine ⟨?_, hhead _⟩
    unfold isUnsigned
    rw [List.takeWhile_append_of_pos hdot, List.dropWhile_append_of_pos hdot]
    simp [hd, (isDigits_of_cut hv).1]
  · obtain ⟨rfl, -⟩ := Prod.mk.inj e
    refine ⟨?_, by simpa using hhead []⟩
    unfold isUnsigned
    rw [List.takeWhile_eq_self_iff.mpr hdot, List.dropWhile_eq_nil_iff.mpr (by simpa using hdot), hd]
    rfl

lemma isNumeral_of_cut {cs w r : List Char} (h : Token.number cs = some (w, r)) :
    isNumeral w = true := by
  unfold Token.number either at h
  split at h
  · next t ht =>
    obtain rfl := Option.some.inj h
    obtain ⟨_, v, -, rfl, hv⟩ := after_text ht
    exact (isUnsigned_of_cut hv).1
  · obtain ⟨hu, hhead⟩ := isUnsigned_of_cut h
    unfold isNumeral
    split
    · simp at hhead
    · exact hu

theorem wellSpelled_of_scan {cs : List Char} {ts : List Token} (h : scan cs = .ok ts) :
    ∀ t ∈ ts, WellSpelled t := by
  intro t ht
  constructor
  · intro hk
    obtain ⟨ds, r, hcut⟩ := scan_cut h (f := string) (by simp [cuts]) (by decide) t ht hk
    exact (faithful_string _ _ _ hcut).2
  · intro hk
    obtain ⟨ds, r, hcut⟩ := scan_cut h (f := Token.symbol) (by simp [cuts]) (by decide) t ht hk
    obtain ⟨_, w, -, hw, hnext⟩ := after_text hcut
    rw [hw]
    exact (faithful_either faithful_name faithful_string _ _ _ hnext).2
  · intro hk
    obtain ⟨ds, r, hcut⟩ := scan_cut h (f := Token.number) (by simp [cuts]) (by decide) t ht hk
    exact isNumeral_of_cut hcut

/-- what a token stands for, as a step -/
def read (t : Token) : Reading → Step (Option Value)
  | .value v => return some v
  | .interpolated => fault t .interpolation
  | .other => return none

lemma quoted_eq (t : Token) {cs : List Char} (h : cs ≠ []) :
    (quoted t cs >>= fun v => pure (some v)) = read t (quotedReading cs) := by
  cases cs with
  | nil => exact absurd rfl h
  | cons c r =>
    unfold quoted quotedReading
    dsimp only
    cases unquote? (c :: r) <;> rfl

lemma contains_keywords (cs : List Char) :
    keywords.contains (String.ofList cs) = (keyword? cs).isSome := by
  have spelled {s : String} (h : cs ≠ s.toList) : String.ofList cs ≠ s := by
    rintro rfl
    exact h String.toList_ofList.symm
  unfold keyword?
  by_cases h1 : cs = "true".toList
  · rw [if_pos h1, h1]
    decide
  by_cases h2 : cs = "false".toList
  · rw [if_neg h1, if_pos h2, h2]
    decide
  by_cases h3 : cs = "nil".toList
  · rw [if_neg h1, if_neg h2, if_pos h3, h3]
    decide
  rw [if_neg h1, if_neg h2, if_neg h3]
  simp [keywords, spelled h1, spelled h2, spelled h3]

/-- a literal that is well spelled is read without a mishap -/
theorem literal_eq {t : Token} (h : WellSpelled t) : literal t = read t t.reading := by
  unfold literal reading
  cases hk : t.kind with
  | string => exact quoted_eq t (h.string hk)
  | symbol =>
    dsimp only
    unfold symbol
    cases hd : t.text.drop 1 with
    | nil => exact absurd hd (h.symbol hk)
    | cons c r =>
      dsimp only
      split
      · exact quoted_eq t (by simp)
      · rfl
  | number =>
    dsimp only
    unfold number
    rw [if_pos (h.number hk)]
    rfl
  | name =>
    dsimp only
    rw [Token.spelling, contains_keywords]
    unfold keyword
    cases keyword? t.text <;> rfl
  | _ => rfl

/-! ## values -/

/-- what the readers may be called with -/
structure Readable (ts : List Token) : Prop where
  closed : Closed ts
  spelled : ∀ t ∈ ts, WellSpelled t

theorem readable_of_scan {cs : List Char} {ts : List Token} (h : scan cs = .ok ts) :
    Readable ts := by
  obtain ⟨body, e, rfl, he, -⟩ := scan_endOfFile h
  exact ⟨⟨e, List.getLast?_concat, he⟩, wellSpelled_of_scan h⟩

section
variable {α : Type} {ts : List Token} {active : List Frame} {i k : Nat}

lemma agrees_key {t : Token} (ht : t ∈ ts) {v : Value} {f : Value → Step α}
    {g : String → Except SyntaxFault (Parsed α)}
    (h : ∀ s, v = .str s → Agrees ts k ((f (.str s)).run ts active i) (g s)) :
    Agrees ts k ((key t v >>= f).run ts active i) (keyOf t v >>= g) := by
  by_cases hs : ∃ s, v = .str s
  · obtain ⟨s, rfl⟩ := hs
    exact h s rfl
  · have hkey : key t v = fault t (.unsupportedKey t.spelling) := by
      unfold key
      split
      · exact absurd ⟨_, rfl⟩ hs
      · rfl
    have hkeyOf : keyOf t v = .error ⟨t.line, .unsupportedKey t.spelling⟩ := by
      unfold keyOf
      split
      · exact absurd ⟨_, rfl⟩ hs
      · rfl
    rw [hkey, hkeyOf, fault_bind]
    exact agrees_fault ht _

/-- what is enclosed agrees at the first token that is no line break -/
lemma enclosed_agrees (hc : Closed ts) {r : Reader} (hrank : Reader.value.rank < r.rank)
    (hi : i < ts.length) (ha : Admits active ⟨r, i⟩) {n : Nat} (hn : ts.length - i ≤ n)
    {m : Mark} {x : Step α} {g : List Token → Except SyntaxFault (Parsed α)}
    (h : ∀ active p, i ≤ p → p < ts.length → Admits active ⟨.value, p⟩ →
      Agrees ts (p + 1) ((upTo m x).run ts active p) (g (ts.drop p))) :
    Agrees ts (i + 1) ((enclosed r m n x).run ts active i) (g (skipNewlines (ts.drop i))) := by
  refine agrees_call ha (agrees_newlines hc hi hn fun p hp hl e => ?_)
  rw [← e]
  exact (h _ p hp hl (ha.lower .value hrank hp)).mono (Nat.succ_le_succ hp)

end

/-- with enough calls and turns, the readers of values agree with any number of readers that is enough;
the loops, with the bracket behind them -/
structure ValuesAgree (ts : List Token) (n : Nat) : Prop where
  value : ∀ m active i, i < ts.length → Admits active ⟨.value, i⟩ →
    2 * (ts.length - i) ≤ n → 2 * (ts.length - i) ≤ m →
    Agrees ts (i + 1) ((value n).run ts active i) (valueFrom m (ts.drop i))
  items : ∀ m active i, i < ts.length → Admits active ⟨.value, i⟩ →
    2 * (ts.length - i) + 1 ≤ n → 2 * (ts.length - i) + 1 ≤ m →
    Agrees ts (i + 1) ((upTo closeList (items n)).run ts active i) (itemsFrom m (ts.drop i))
  entries : ∀ m active i es, i < ts.length → Admits active ⟨.value, i⟩ →
    2 * (ts.length - i) + 1 ≤ n → 2 * (ts.length - i) + 1 ≤ m →
    Agrees ts (i + 1) ((upTo closeBrace (entries n es)).run ts active i)
      (entriesFrom m es (ts.drop i))

section
variable {ts : List Token} (hr : Readable ts) {n : Nat} (hn : ValuesAgree ts n)
include hr hn

lemma value_agrees (m : Nat) (active : List Frame) (i : Nat) (hi : i < ts.length)
    (ha : Admits active ⟨.value, i⟩) (h : 2 * (ts.length - i) ≤ n + 1)
    (h' : 2 * (ts.length - i) ≤ m) :
    Agrees ts (i + 1) ((value (n + 1)).run ts active i) (valueFrom m (ts.drop i)) := by
  obtain ⟨m, rfl⟩ : ∃ m', m = m' + 1 := ⟨m - 1, by omega⟩
  obtain ⟨t, ht⟩ := exists_token hi
  have hmem := List.mem_of_getElem? ht
  rw [value, drop_eq_cons ht, valueFrom]
  apply agrees_call ha
  apply agrees_take ht
  rw [literal_eq (hr.spelled t hmem)]
  cases hv : t.reading with
  | value v =>
    have hk : t.kind ≠ .endOfFile := by
      intro hk
      have := ((Grammar.reading_iff t v).mp hv).kind_mem
      rw [hk] at this
      exact absurd this (by decide)
    exact agrees_pure (Nat.le_refl _) (hr.closed.next ht hk)
  | interpolated => exact agrees_fault hmem _
  | other =>
    -- behind the bracket any reader may be called
    have next {b : Mark} (hb : b.kind ≠ .endOfFile) (ho : t.is b = true) : i + 1 < ts.length :=
      hr.closed.next ht (by rw [Grammar.kind_of_is ho]; exact hb)
    rw [read, Step.done_bind]
    dsimp only
    refine .ite (fun ho => ?_) fun _ => .ite (fun ho => ?_) fun _ => agrees_fault hmem _
    · have hl := next (by decide) ho
      refine (enclosed_agrees hr.closed (by decide) hl (ha.later .array (Nat.lt_succ_self i))
        (by omega) fun active p hp hpl hv => ?_).bind fun vs q hq hql _ => ?_
      · exact hn.items m active p hpl hv (by omega) (by omega)
      · exact agrees_pure (by omega) hql
    · have hl := next (by decide) ho
      refine (enclosed_agrees hr.closed (by decide) hl (ha.later .hash (Nat.lt_succ_self i))
        (by omega) fun active p hp hpl hv => ?_).bind fun es q hq hql _ => ?_
      · exact hn.entries m active p [] hpl hv (by omega) (by omega)
      · exact agrees_pure (by omega) hql

lemma items_agrees (m : Nat) (active : List Frame) (i : Nat) (hi : i < ts.length)
    (ha : Admits active ⟨.value, i⟩) (h : 2 * (ts.length - i) + 1 ≤ n + 1)
    (h' : 2 * (ts.length - i) + 1 ≤ m) :
    Agrees ts (i + 1) ((upTo closeList (items (n + 1))).run ts active i)
      (itemsFrom m (ts.drop i)) := by
  obtain ⟨m, rfl⟩ : ∃ m', m = m' + 1 := ⟨m - 1, by omega⟩
  obtain ⟨t, ht⟩ := exists_token hi
  rw [items, itemsFrom, startsWith_drop ht, upTo_bind]
  apply agrees_here
  rw [upTo_bind]
  apply agrees_isAt ht
  by_cases hclose : t.is closeList = true
  · rw [if_pos hclose, if_pos hclose, List.drop_drop]
    exact agrees_closed hr.closed (by decide) ht hclose []
  · rw [if_neg hclose, if_neg hclose, upTo_bind]
    refine (hn.value m active i hi ha (by omega) (by omega)).bind fun v p hp hl _ => ?_
    dsimp only
    rw [upTo_bind]
    refine agrees_newlines hr.closed hl (by omega) fun q hq hql e => ?_
    rw [← e, upTo_more]
    refine agrees_more hr.closed (by omega) hql (by omega) (fun w hw hwl e' => ?_) ?_
    · rw [upTo_map, ← e']
      refine (hn.items m active w hwl (ha.mono (by omega)) (by omega) (by omega)).bind
        fun vs x hx hxl _ => ?_
      exact agrees_pure (by omega) hxl
    · exact (agrees_upTo hr.closed (by decide) hql [v]).mono (by omega)

/-- what follows the key of an entry stands further on -/
lemma agrees_entryKey {α : Type} {m : Nat} {active : List Frame} {i k : Nat} {t : Token}
    (ht : ts[i]? = some t) (ha : Admits active ⟨.value, i⟩) (h : 2 * (ts.length - i) ≤ n)
    (h' : 2 * (ts.length - i) ≤ m) {f : Value → Step α}
    {g : Parsed String → Except SyntaxFault (Parsed α)}
    (hf : ∀ s p, i < p → p < ts.length → Agrees ts k ((f (.str s)).run ts active p) (g (s, ts.drop p))) :
    Agrees ts k ((entryKey (value n) >>= f).run ts active i)
      (Gemfile.entryKey (valueFrom m) t (ts.drop (i + 1)) >>= g) := by
  unfold entryKey Gemfile.entryKey
  rw [Step.bind_assoc]
  apply agrees_isAtKind ht
  by_cases hlabel : t.isKind .label = true
  · have hnext := hr.closed.next ht (by rw [(Grammar.isKind_iff _ _).mp hlabel]; decide)
    rw [if_pos hlabel, if_pos hlabel, Step.bind_assoc]
    apply agrees_take ht
    exact hf _ _ (Nat.lt_succ_self i) hnext
  · rw [if_neg hlabel, if_neg hlabel, ← drop_eq_cons ht]
    simp only [Step.bind_assoc, bind_assoc]
    apply agrees_look ht
    refine (hn.value m active i (lt_length ht) ha h h').bind fun v p hp hl _ => ?_
    refine agrees_key (List.mem_of_getElem? ht) fun s _ => ?_
    refine agrees_want hr.closed (by decide) hl fun hl' => ?_
    exact hf s _ (by omega) hl'

lemma entries_agrees (m : Nat) (active : List Frame) (i : Nat) (es : Options) (hi : i < ts.length)
    (ha : Admits active ⟨.value, i⟩) (h : 2 * (ts.length - i) + 1 ≤ n + 1)
    (h' : 2 * (ts.length - i) + 1 ≤ m) :
    Agrees ts (i + 1) ((upTo closeBrace (entries (n + 1) es)).run ts active i)
      (entriesFrom m es (ts.drop i)) := by
  obtain ⟨m, rfl⟩ : ∃ m', m = m' + 1 := ⟨m - 1, by omega⟩
  obtain ⟨t, ht⟩ := exists_token hi
  rw [entries, drop_eq_cons ht, entriesFrom, upTo_bind]
  apply agrees_here
  rw [upTo_bind]
  apply agrees_isAt ht
  by_cases hclose : t.is closeBrace = true
  · rw [if_pos hclose, if_pos hclose]
    exact agrees_closed hr.closed (by decide) ht hclose es
  · rw [if_neg hclose, if_neg hclose, upTo_bind]
    refine agrees_entryKey hr hn ht ha (by omega) (by omega) fun s p hp hl => ?_
    dsimp only
    rw [upTo_bind]
    refine agrees_newlines hr.closed hl (by omega) fun q hq hql e => ?_
    rw [← e, upTo_bind]
    have hv := ha.mono (j := q) (by omega)
    refine (hn.value m active q hql hv (by omega) (by omega)).bind fun v w hw hwl _ => ?_
    dsimp only
    rw [filed, upTo_bind, Step.done_bind, upTo_bind]
    refine agrees_newlines hr.closed hwl (by omega) fun x hx hxl e' => ?_
    rw [← e', upTo_more]
    refine agrees_more hr.closed (by omega) hxl (by omega) (fun y hy hyl e'' => ?_) ?_
    · rw [← e'']
      have he := hn.entries m active y (Table.put s v es) hyl (ha.mono (by omega)) (by omega) (by omega)
      exact he.mono (by omega)
    · exact (agrees_upTo hr.closed (by decide) hxl _).mono (by omega)

omit hn in
theorem valuesAgree (n : Nat) : ValuesAgree ts n := by
  induction n with
  | zero =>
    constructor
    · intro m active i hi _ h
      omega
    · intro m active i hi _ h
      omega
    · intro m active i es hi _ h
      omega
  | succ n ih => exact ⟨value_agrees hr ih, items_agrees hr ih, entries_agrees hr ih⟩

end

end Gemfile.Cursor
