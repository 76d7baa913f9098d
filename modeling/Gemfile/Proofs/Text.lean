import Gemfile.Text.Blank
import Gemfile.Text.DecimalDigit
import Gemfile.Text.Fields
import Mathlib.Data.List.DropRight
import Mathlib.Tactic.Lemma

/-!
# Characters, texts without their blanks, fields and digits

* `range_of_isDigit`, `range_of_isAlpha`   where the plain digits and letters are
* `takeWhile_of_head`, `dropWhile_of_head`   a text that does not begin with a character of a class
* `exists_strip`, `strip_of_ends`   a text is what `strip` leaves of it, between two rows of blanks
* `forall_of_joined`   what holds of the separator and all over the fields holds all over a text
* `fields_joined`      fields without separators are found again
* `numeral_toDigits`   so is a number that is written with plain digits
* `backslashes cs`     how many backslashes a text ends in
-/

namespace Gemfile.Text

lemma range_of_isDigit {c : Char} (h : c.isDigit = true) : 48 ≤ c.toNat ∧ c.toNat ≤ 57 := by
  simp only [Char.isDigit, Bool.and_eq_true, decide_eq_true_eq, ge_iff_le,
    UInt32.le_iff_toNat_le] at h
  simpa using h

lemma range_of_isAlpha {c : Char} (h : c.isAlpha = true) : 65 ≤ c.toNat ∧ c.toNat ≤ 122 := by
  have h : (decide ('A'.val ≤ c.val ∧ c.val ≤ 'Z'.val) ||
      decide ('a'.val ≤ c.val) && decide (c.val ≤ 'z'.val)) = true := h
  simp only [Bool.or_eq_true, Bool.and_eq_true, decide_eq_true_eq, UInt32.le_iff_toNat_le] at h
  simp at h
  omega

lemma takeWhile_of_head {p : Char → Bool} {r : List Char}
    (h : ∀ c, r.head? = some c → p c = false) : r.takeWhile p = [] := by
  cases r with
  | nil => rfl
  | cons c r => exact List.takeWhile_cons_of_neg (by simp [h c rfl])

lemma dropWhile_of_head {p : Char → Bool} {r : List Char}
    (h : ∀ c, r.head? = some c → p c = false) : r.dropWhile p = r := by
  cases r with
  | nil => rfl
  | cons c r => exact List.dropWhile_cons_of_neg (by simp [h c rfl])

lemma strip_of_ends {p c q : List Char} (hp : ∀ x ∈ p, isBlank x = true)
    (hq : ∀ x ∈ q, isBlank x = true) (hc : c ≠ []) (head : ∀ x, c.head? = some x → isBlank x = false)
    (last : ∀ x, c.getLast? = some x → isBlank x = false) : strip (p ++ c ++ q) = c := by
  have left : stripLeft (p ++ c ++ q) = c ++ q := by
    unfold stripLeft
    rw [List.append_assoc, List.dropWhile_append_of_pos hp]
    refine dropWhile_of_head fun x hx => head x ?_
    rwa [List.head?_append_of_ne_nil _ hc] at hx
  have right : stripRight (c ++ q) = c := by
    unfold stripRight
    rw [List.reverse_append, List.dropWhile_append_of_pos fun x hx => hq x (List.mem_reverse.mp hx),
      dropWhile_of_head fun x hx => last x (by rwa [List.head?_reverse] at hx), List.reverse_reverse]
  unfold strip
  rw [left, right]

lemma exists_strip (cs : List Char) : ∃ p q, (∀ x ∈ p, isBlank x = true) ∧
    (∀ x ∈ q, isBlank x = true) ∧ cs = p ++ strip cs ++ q := by
  refine ⟨cs.takeWhile isBlank, ((stripLeft cs).reverse.takeWhile isBlank).reverse, ?_, ?_, ?_⟩
  · intro x hx
    exact List.mem_takeWhile_imp hx
  · intro x hx
    exact List.mem_takeWhile_imp (List.mem_reverse.mp hx)
  · have right : strip cs ++ ((stripLeft cs).reverse.takeWhile isBlank).reverse = stripLeft cs := by
      unfold strip stripRight
      rw [← List.reverse_append, List.takeWhile_append_dropWhile, List.reverse_reverse]
    rw [List.append_assoc, right]
    exact List.takeWhile_append_dropWhile.symm

lemma strip_of_not_blank {cs : List Char} (h : ∀ c ∈ cs, isBlank c = false) : strip cs = cs := by
  have left : stripLeft cs = cs := dropWhile_of_head fun c hc => h c (List.mem_of_head? hc)
  have right : stripRight cs = cs := by
    unfold stripRight
    rw [dropWhile_of_head fun c hc => h c (List.mem_reverse.mp (List.mem_of_head? hc)),
      List.reverse_reverse]
  unfold strip
  rw [left, right]

/-! ## fields -/

section
variable {sep : Char}

/-- what holds of the separator and all over the fields holds all over the text -/
lemma forall_of_joined {P : Char → Prop} (hs : P sep) {fs : List (List Char)}
    (h : ∀ f ∈ fs, ∀ c ∈ f, P c) : ∀ c ∈ joined sep fs, P c := by
  induction fs with
  | nil => exact fun c hc => absurd hc List.not_mem_nil
  | cons f fs ih =>
    obtain ⟨hf, hfs⟩ := List.forall_mem_cons.mp h
    cases fs with
    | nil => exact hf
    | cons g gs =>
      show ∀ c ∈ f ++ sep :: joined sep (g :: gs), P c
      rw [List.forall_mem_append, List.forall_mem_cons]
      exact ⟨hf, hs, ih hfs⟩

lemma joined_cons {f : List Char} {fs : List (List Char)} (h : fs ≠ []) :
    joined sep (f :: fs) = f ++ sep :: joined sep fs := by
  cases fs with
  | nil => exact absurd rfl h
  | cons g gs => rfl

lemma joined_append {fs gs : List (List Char)} (hf : fs ≠ []) (hg : gs ≠ []) :
    joined sep (fs ++ gs) = joined sep fs ++ sep :: joined sep gs := by
  induction fs with
  | nil => exact absurd rfl hf
  | cons f fs ih =>
    cases fs with
    | nil => exact joined_cons hg
    | cons f' fs =>
      rw [List.cons_append, joined_cons (by simp), ih (List.cons_ne_nil _ _),
        joined_cons (List.cons_ne_nil _ _), List.append_assoc, List.cons_append]

lemma fields_append {f : List Char} (h : sep ∉ f) (r : List Char) :
    fields sep (f ++ sep :: r) = f :: fields sep r := by
  induction f with
  | nil => exact if_pos rfl
  | cons c f ih =>
    rw [List.mem_cons, not_or] at h
    rw [List.cons_append, fields_cons, if_neg (Ne.symm h.1), ih h.2]
    rfl

lemma fields_of_not_mem {f : List Char} (h : sep ∉ f) : fields sep f = [f] := by
  induction f with
  | nil => rfl
  | cons c f ih =>
    rw [List.mem_cons, not_or] at h
    rw [fields_cons, if_neg (Ne.symm h.1), ih h.2]
    rfl

/-- fields without separators are found again -/
lemma fields_joined {fs : List (List Char)} (hn : fs ≠ []) (h : ∀ f ∈ fs, sep ∉ f) :
    fields sep (joined sep fs) = fs := by
  induction fs with
  | nil => exact absurd rfl hn
  | cons f fs ih =>
    obtain ⟨hf, hfs⟩ := List.forall_mem_cons.mp h
    cases fs with
    | nil => exact fields_of_not_mem hf
    | cons g gs =>
      rw [joined_cons (List.cons_ne_nil _ _), fields_append hf, ih (List.cons_ne_nil _ _) hfs]

end

/-! ## digits -/

lemma digitValue?_of_isDigit {c : Char} (h : c.isDigit = true) :
    digitValue? c = some (c.toNat - 48) := by
  have hc := range_of_isDigit h
  unfold digitValue? zeroDigits
  rw [List.find?_cons_of_pos (by simp; omega)]
  rfl

lemma numeralFrom_eq {ds : List Char} (h : ∀ c ∈ ds, c.isDigit = true) (n : Nat) :
    numeralFrom n ds = Nat.ofDigitChars 10 ds n := by
  induction ds generalizing n with
  | nil => rw [numeralFrom_nil, Nat.ofDigitChars_nil]
  | cons c ds ih =>
    rw [numeralFrom_cons, Nat.ofDigitChars_cons, digitValue?_of_isDigit (h c List.mem_cons_self),
      ih fun d hd => h d (List.mem_cons_of_mem _ hd)]
    rfl

lemma isDigit_toDigits (n : Nat) : ∀ c ∈ Nat.toDigits 10 n, c.isDigit = true :=
  fun _ hc => Nat.isDigit_of_mem_toDigits (by omega) (by omega) hc

lemma numeral_toDigits (n : Nat) : numeral (Nat.toDigits 10 n) = n := by
  unfold numeral
  rw [numeralFrom_eq (isDigit_toDigits n), Nat.ofDigitChars_ten_toDigits]

/-! ## backslashes -/

/-- how many backslashes a text ends in -/
def backslashes (cs : List Char) : Nat := (cs.rtakeWhile (· == '\\')).length

lemma backslashes_nil : backslashes [] = 0 := rfl

lemma backslashes_backslash (cs : List Char) : backslashes (cs ++ ['\\']) = backslashes cs + 1 := by
  unfold backslashes
  rw [List.rtakeWhile_concat_pos _ _ _ (by decide), List.length_append, List.length_singleton]

lemma backslashes_of_ne {c : Char} (h : c ≠ '\\') (cs : List Char) : backslashes (cs ++ [c]) = 0 := by
  unfold backslashes
  rw [List.rtakeWhile_concat_neg _ _ _ (by simp [h]), List.length_nil]

end Gemfile.Text
