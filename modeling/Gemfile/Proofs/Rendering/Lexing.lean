import Gemfile.Proofs.Lexing

/-!
# Tokens written with spaces between them

What a kind cuts off a text is cut off again wherever a character that ends a word stands behind it,
whatever stood behind it before.  So the tokens of a text with a space between any two of them are its
tokens again.

* `Token.Kept cut`      `cut` cuts the same off in front of whatever ends a word
* `Token.kept_cuts`     every kind of token but names does,
* `Token.lexeme?_kept`  so a lexeme that is a token is one again, and of its kind
* `Token.rendered ts`   the spellings of `ts` with spaces between them, without the end of the file
* `Token.scan_rendered` the tokens of a text with the spellings of tokens are of their kinds
-/

namespace Gemfile.Token

/-- a token without its line -/
def lexeme (t : Token) : Lexeme := ⟨t.kind, t.text⟩

def Kept (cut : List Char → Cut) : Prop :=
  ∀ cs t r, cut cs = some (t, r) → ∀ r', Ends r' → cut (t ++ r') = some (t, r')

/-! ## parts of lexemes -/

lemma single_text {p : Char → Bool} {cs t r : List Char} (h : single p cs = some (t, r)) :
    ∃ c, t = [c] ∧ p c = true := by
  cases cs with
  | nil => cases h
  | cons c cs =>
    rw [single_cons] at h
    split at h
    · next hc =>
      obtain ⟨rfl, -⟩ := Prod.mk.inj (Option.some.inj h)
      exact ⟨c, rfl, hc⟩
    · cases h

lemma kept_single (p : Char → Bool) : Kept (single p) := by
  intro cs t r h r' _
  obtain ⟨c, rfl, hc⟩ := single_text h
  exact if_pos hc

lemma after_text {c : Char} {next : List Char → Cut} {cs t r : List Char}
    (h : after c next cs = some (t, r)) : ∃ ds w, cs = c :: ds ∧ t = c :: w ∧ next ds = some (w, r) := by
  cases cs with
  | nil => cases h
  | cons d ds =>
    rw [after_cons] at h
    split at h
    · next hd =>
      obtain ⟨u, hu, e⟩ := Option.map_eq_some_iff.mp h
      obtain ⟨rfl, rfl⟩ := Prod.mk.inj e
      exact ⟨ds, u.1, by rw [hd], by rw [hd], hu⟩
    · cases h

lemma kept_after (c : Char) {next : List Char → Cut} (h : Kept next) : Kept (after c next) := by
  intro cs t r ht r' hr
  obtain ⟨ds, w, -, rfl, hw⟩ := after_text ht
  rw [List.cons_append, after_cons, if_pos rfl, h ds w r hw r' hr]
  rfl

/-- of two kinds that begin with different characters -/
lemma kept_either {first second : List Char → Cut} (h : Kept first) (h' : Kept second)
    (hs : Faithful second) (ha : ∀ c r r', first (c :: r) = none ∨ second (c :: r') = none) :
    Kept (either first second) := by
  intro cs t r ht r' hr
  unfold either at ht ⊢
  cases hf : first cs with
  | some u =>
    rw [hf] at ht
    obtain rfl := Option.some.inj ht
    rw [h cs t r hf r' hr]
  | none =>
    rw [hf] at ht
    obtain ⟨hcs, hne⟩ := hs cs t r ht
    obtain ⟨c, w, rfl⟩ := List.exists_cons_of_ne_nil hne
    have hn : first (c :: (w ++ r')) = none := by
      rcases ha c (w ++ r') (w ++ r) with hn | hn
      · exact hn
      · have ht : second cs = some (c :: w, r) := ht
        rw [hcs, List.cons_append, hn] at ht
        cases ht
    rw [List.cons_append, hn]
    exact h' cs (c :: w) r ht r' hr

lemma kept_either_after {c : Char} {next second : List Char → Cut} (h : Kept next)
    (h' : Kept second) (hs : Faithful second) (hc : ∀ r, second (c :: r) = none) :
    Kept (either (after c next) second) := by
  refine kept_either (kept_after c h) h' hs ?_
  intro d r r'
  by_cases hd : d = c
  · right
    rw [hd]
    exact hc r'
  · left
    exact after_none hd next r

lemma kept_upTo (close : Char) : Kept (upTo close) := by
  intro cs
  induction cs with
  | nil =>
    intro t r h
    cases h
  | cons c cs ih =>
    intro t r h r' hr
    rw [upTo] at h
    split at h
    · next hc =>
      obtain ⟨rfl, -⟩ := Prod.mk.inj (Option.some.inj h)
      exact if_pos hc
    · next hc =>
      obtain ⟨u, hu, e⟩ := Option.map_eq_some_iff.mp h
      obtain ⟨rfl, rfl⟩ := Prod.mk.inj e
      rw [List.cons_append, upTo, if_neg hc, ih u.1 u.2 hu r' hr]
      rfl

lemma kept_closing (quote : Char) : Kept (closing quote) := by
  suffices h : ∀ n, ∀ cs : List Char, cs.length ≤ n → ∀ t r, closing quote cs = some (t, r) →
      ∀ r', closing quote (t ++ r') = some (t, r') from
    fun cs t r ht r' _ => h cs.length cs (Nat.le_refl _) t r ht r'
  intro n
  induction n with
  | zero =>
    intro cs hn t r h
    rw [List.length_eq_zero_iff.mp (Nat.le_zero.mp hn), closing_nil] at h
    cases h
  | succ n ih =>
    intro cs hn t r h r'
    cases cs with
    | nil =>
      rw [closing_nil] at h
      cases h
    | cons c cs =>
      rw [List.length_cons] at hn
      rw [closing_cons] at h
      split at h
      · next hq =>
        obtain ⟨rfl, -⟩ := Prod.mk.inj (Option.some.inj h)
        rw [List.singleton_append, closing_cons, if_pos hq]
      · next hq =>
        split at h
        · next hb =>
          cases cs with
          | nil => cases h
          | cons d cs =>
            rw [List.length_cons] at hn
            dsimp only at h
            split at h
            · cases h
            · next hd =>
              obtain ⟨u, hu, e⟩ := Option.map_eq_some_iff.mp h
              obtain ⟨rfl, rfl⟩ := Prod.mk.inj e
              have hr := ih cs (by omega) u.1 u.2 hu r'
              rw [List.cons_append, List.cons_append, closing_cons, if_neg hq, if_pos hb]
              dsimp only
              rw [if_neg hd, hr]
              rfl
        · next hb =>
          obtain ⟨u, hu, e⟩ := Option.map_eq_some_iff.mp h
          obtain ⟨rfl, rfl⟩ := Prod.mk.inj e
          have hr := ih cs (by omega) u.1 u.2 hu r'
          rw [List.cons_append, closing_cons, if_neg hq, if_neg hb, hr]
          rfl

lemma kept_row {p : Char → Bool} {cs t r r' : List Char} (h : row p cs = some (t, r))
    (hr : ∀ c, r'.head? = some c → p c = false) : row p (t ++ r') = some (t, r') := by
  have hne := (faithful_row p cs t r h).2
  unfold row at h
  split at h
  · cases h
  · next c w hw =>
    obtain ⟨rfl, -⟩ := Prod.mk.inj (Option.some.inj h)
    refine row_append hne ?_ hr
    intro d hd
    rw [← hw] at hd
    exact List.all_eq_true.mp List.all_takeWhile d hd

lemma optionally_cases {first next : List Char → Cut} {cs t r : List Char}
    (h : optionally first next cs = some (t, r)) :
    first cs = some (t, r) ∧ next r = none ∨
      ∃ w s v, first cs = some (w, s) ∧ next s = some (v, r) ∧ t = w ++ v := by
  cases hw : first cs with
  | none =>
    rw [optionally_none hw] at h
    cases h
  | some u =>
    cases hn : next u.2 with
    | none =>
      rw [optionally_first hw hn] at h
      obtain rfl := Option.some.inj h
      exact .inl ⟨rfl, hn⟩
    | some v =>
      rw [optionally_both hw hn] at h
      obtain ⟨rfl, rfl⟩ := Prod.mk.inj (Option.some.inj h)
      exact .inr ⟨u.1, u.2, v.1, rfl, hn, rfl⟩

/-! ## kinds of tokens -/

lemma kept_words : Kept words := by
  have curly : Kept (after '{' (upTo '}')) := kept_after _ (kept_upTo _)
  have round : Kept (either (after '(' (upTo ')')) (after '{' (upTo '}'))) :=
    kept_either_after (kept_upTo _) curly (faithful_after (faithful_upTo _)) fun _ => rfl
  have bracketed : Kept bracketed :=
    kept_either_after (kept_upTo _) round
      (faithful_either (faithful_after (faithful_upTo _)) (faithful_after (faithful_upTo _)))
      fun _ => rfl
  exact kept_after _ (kept_either_after bracketed (kept_after _ bracketed)
    (faithful_after faithful_bracketed) fun _ => rfl)

lemma kept_string : Kept string :=
  kept_either_after (kept_closing _) (kept_after _ (kept_closing _))
    (faithful_after (faithful_closing _)) fun _ => rfl

lemma kept_label : Kept label := by
  intro cs t r h r' hr
  obtain ⟨c, s, rfl, hc, hs⟩ := label_text h
  have hname : plainName (c :: s ++ ':' :: r') = some (c :: s, ':' :: r') := by
    refine plainName_append hc hs ?_
    intro d hd
    rw [List.head?_cons, Option.some.injEq] at hd
    rw [← hd]
    decide
  have hcolon : loneColon (':' :: r') = some ([':'], r') := by
    refine if_neg ?_
    intro hd
    exact absurd (hr ':' hd) (by decide)
  rw [List.append_assoc, List.singleton_append]
  unfold label
  rw [hname, Option.bind_some, hcolon]
  rfl

lemma kept_digits : Kept digits := by
  intro cs t r h r' hr
  exact kept_row h fun c hc => (ends_not_digit hr c hc).1

lemma kept_unsigned : Kept unsigned := by
  intro cs t r h r' hr
  rcases optionally_cases h with ⟨hw, -⟩ | ⟨w, s, v, hw, hf, rfl⟩
  · have hdot : after '.' digits r' = none := by
      cases r' with
      | nil => rfl
      | cons c r' => exact after_none (ends_not_digit hr c rfl).2 _ r'
    exact optionally_first (kept_digits cs t r hw r' hr) hdot
  · have hfraction := kept_after '.' kept_digits s v r hf r' hr
    -- the point ends the digits in front of it
    have hdigits : digits (w ++ (v ++ r')) = some (w, v ++ r') := by
      refine kept_row hw ?_
      intro c hc
      obtain ⟨ds, x, -, hv, -⟩ := after_text hf
      rw [hv, List.cons_append, List.head?_cons, Option.some.injEq] at hc
      rw [← hc]
      decide
    rw [List.append_assoc]
    exact optionally_both hdigits hfraction

lemma kept_number : Kept number :=
  kept_either_after kept_unsigned kept_unsigned faithful_unsigned fun r =>
    optionally_none (row_none (by decide) r) _

lemma name_identifier {cs t r : List Char} (h : name cs = some (t, r)) : Identifier t := by
  rcases optionally_cases h with ⟨hw, -⟩ | ⟨w, s, v, hw, hm, rfl⟩
  · obtain ⟨c, s, hu, hc, hs⟩ := plainName_text hw
    exact ⟨c, s, [], by rw [List.append_nil]; exact hu, hc, hs, .inl rfl⟩
  · obtain ⟨c, s, hu, hc, hs⟩ := plainName_text hw
    obtain ⟨m, hv, hmark⟩ := single_text hm
    have hcases : v = ['?'] ∨ v = ['!'] := by
      rw [hv]
      rcases Bool.or_eq_true_iff.mp hmark with hmark | hmark
      · left
        rw [beq_iff_eq.mp hmark]
      · right
        rw [beq_iff_eq.mp hmark]
    exact ⟨c, s, v, by rw [hu], hc, hs, .inr hcases⟩

lemma kept_name : Kept name := by
  intro cs t r h r' hr
  obtain ⟨c, s, m, rfl, hc, hs, hm⟩ := name_identifier h
  have hplain : plainName (c :: s ++ (m ++ r')) = some (c :: s, m ++ r') :=
    plainName_append hc hs fun d hd => (head_behind_name hm hr d hd).1
  rw [List.append_assoc]
  exact optionally_mark hplain hm hr

lemma kept_symbol : Kept symbol := by
  refine kept_after _ (kept_either kept_name kept_string faithful_string ?_)
  intro c r r'
  by_cases hc : isNameStart c = true
  · right
    exact either_none (after_none (ne_of_isNameStart hc (by decide)) _ r')
      (after_none (ne_of_isNameStart hc (by decide)) _ r')
  · left
    exact optionally_none (plainName_none (Bool.eq_false_iff.mpr hc) r) _

/-! ## lexemes -/

theorem kept_cuts {k : Kind × (List Char → Cut)} (hk : k ∈ cuts) (ht : k.1.isToken = true) :
    Kept k.2 := by
  simp only [cuts, List.mem_cons, List.not_mem_nil, or_false] at hk
  rcases hk with rfl | rfl | rfl | rfl | rfl | rfl | rfl | rfl | rfl | rfl | rfl
  · exact kept_single _
  · cases ht
  · cases ht
  · exact kept_after _ (kept_single _)
  · exact kept_words
  · exact kept_label
  · exact kept_symbol
  · exact kept_string
  · exact kept_number
  · exact kept_name
  · exact kept_single _

/-- no two kinds begin with the same character, but for labels and names -/
lemma sole_kind {k : Kind × (List Char → Cut)} (hk : k ∈ cuts) {c : Char}
    (hb : k.1.begins c = true) (hc : isNameStart c = false) :
    cuts.filter (fun k => k.1.begins c) = [k] := by
  simp only [cuts, List.mem_cons, List.not_mem_nil, or_false] at hk
  rcases hk with rfl | rfl | rfl | rfl | rfl | rfl | rfl | rfl | rfl | rfl | rfl
  · simp only [Kind.begins, Bool.or_eq_true, beq_iff_eq] at hb
    rcases hb with rfl | rfl <;> rfl
  · simp only [Kind.begins, isGapChar, Bool.or_eq_true, beq_iff_eq] at hb
    rcases hb with ((rfl | rfl) | rfl) | rfl <;> rfl
  · obtain rfl := beq_iff_eq.mp hb
    rfl
  · obtain rfl := beq_iff_eq.mp hb
    rfl
  · obtain rfl := beq_iff_eq.mp hb
    rfl
  · exact absurd hb (by rw [show Kind.label.begins c = isNameStart c from rfl, hc]; decide)
  · obtain rfl := beq_iff_eq.mp hb
    rfl
  · simp only [Kind.begins, Bool.or_eq_true, beq_iff_eq] at hb
    rcases hb with rfl | rfl <;> rfl
  · simp only [Kind.begins, Bool.or_eq_true, beq_iff_eq] at hb
    rcases hb with rfl | hb
    · rfl
    · exact cuts_of_isDecimalDigit hb
  · exact absurd hb (by rw [show Kind.name.begins c = isNameStart c from rfl, hc]; decide)
  · have hp : ['(', ')', ',', '[', ']', '{', '}'].contains c = true := hb
    simp only [List.contains_cons, List.contains_nil, Bool.or_eq_true, beq_iff_eq,
      Bool.false_eq_true, or_false] at hp
    rcases hp with rfl | rfl | rfl | rfl | rfl | rfl | rfl <;> rfl

lemma begins_of_cut {k : Kind × (List Char → Cut)} (hk : k ∈ cuts) {c : Char} {r : List Char}
    {t : List Char × List Char} (h : k.2 (c :: r) = some t) : k.1.begins c = true := by
  rw [← Bool.not_eq_false]
  intro hb
  rw [cut_none hk hb r] at h
  cases h

/-- a kind that begins with a letter or an underscore -/
lemma kind_of_isNameStart {k : Kind × (List Char → Cut)} (hk : k ∈ cuts) {c : Char}
    (hb : k.1.begins c = true) (hc : isNameStart c = true) :
    k = (.label, label) ∨ k = (.name, name) := by
  have hmem : k ∈ cuts.filter fun k => k.1.begins c := List.mem_filter.mpr ⟨hk, hb⟩
  rw [cuts_of_isNameStart hc] at hmem
  simpa using hmem

lemma firstCut_cons {k : Kind × (List Char → Cut)} {cs t r : List Char} (h : k.2 cs = some (t, r))
    (ks : List (Kind × (List Char → Cut))) : firstCut cs (k :: ks) = some (⟨k.1, t⟩, r) := by
  rw [firstCut, h]

/-- a lexeme that is a token is cut off again in front of whatever ends a word -/
theorem lexeme?_kept {cs : List Char} {l : Lexeme} {r : List Char} (h : lexeme? cs = some (l, r))
    (hl : l.kind.isToken = true) {r' : List Char} (hr : Ends r') :
    lexeme? (l.text ++ r') = some (l, r') := by
  obtain ⟨hcs, hne⟩ := lexeme?_append h
  obtain ⟨k, hk, hkind, hcut⟩ := lexeme?_kind h
  obtain ⟨kind, text⟩ := l
  obtain ⟨c, w, rfl⟩ := List.exists_cons_of_ne_nil hne
  have hb : k.1.begins c = true := by
    rw [hcs] at hcut
    exact begins_of_cut hk hcut
  have hkept : k.2 (c :: (w ++ r')) = some (c :: w, r') := by
    have htoken : k.1.isToken = true := by rwa [← hkind]
    exact kept_cuts hk htoken cs (c :: w) r hcut r' hr
  by_cases hc : isNameStart c = true
  · rcases kind_of_isNameStart hk hb hc with rfl | rfl
    · rw [show kind = Kind.label from hkind, List.cons_append, lexeme?_cons, cuts_of_isNameStart hc]
      exact firstCut_cons hkept _
    · rw [show kind = Kind.name from hkind]
      exact lexeme?_name (name_identifier hcut) hr
  · have hsole := sole_kind hk hb (Bool.eq_false_iff.mpr hc)
    rw [show kind = k.1 from hkind, List.cons_append, lexeme?_cons, hsole]
    exact firstCut_cons hkept []

/-- no token begins with a character of a gap -/
lemma head_of_token {cs : List Char} {l : Lexeme} {r : List Char} (h : lexeme? cs = some (l, r))
    (hl : l.kind.isToken = true) : ∀ c, l.text.head? = some c → isGapChar c = false := by
  intro c hc
  obtain ⟨hcs, -⟩ := lexeme?_append h
  obtain ⟨k, hk, hkind, hcut⟩ := lexeme?_kind h
  obtain ⟨w, hw⟩ : ∃ w, l.text = c :: w := by
    obtain ⟨d, w, hw⟩ := List.exists_cons_of_ne_nil (lexeme?_append h).2
    rw [hw, List.head?_cons, Option.some.injEq] at hc
    exact ⟨w, by rw [hw, hc]⟩
  rw [hcs, hw] at hcut
  have hb := begins_of_cut hk hcut
  rw [← Bool.not_eq_true]
  intro hgap
  have hmem : k ∈ cuts.filter fun k => k.1.begins c := List.mem_filter.mpr ⟨hk, hb⟩
  have hfilter : cuts.filter (fun k => k.1.begins c) = [(.gap, gap)] := by
    unfold isGapChar at hgap
    simp only [Bool.or_eq_true, beq_iff_eq] at hgap
    rcases hgap with (rfl | rfl) | rfl <;> rfl
  rw [hfilter, List.mem_singleton] at hmem
  rw [hkind, hmem] at hl
  cases hl

/-! ## texts -/

/-- texts with spaces between them -/
def spaced (ws : List (List Char)) : List Char := [' '].intercalate ws

/-- the spellings of tokens with spaces between them, without the end of the file -/
def rendered (ts : List Token) : List Char :=
  spaced ((ts.filter fun t => !t.isKind .endOfFile).map Token.text)

/-- the gap that is one space -/
def space : Lexeme := ⟨.gap, [' ']⟩

/-- a lexeme of some text, and a token -/
def Standing (l : Lexeme) : Prop :=
  (∃ cs r, lexeme? cs = some (l, r)) ∧ l.kind.isToken = true

lemma ends_nil : Ends [] := by
  intro c hc
  cases hc

lemma spaced_singleton (w : List Char) : spaced [w] = w := by
  simp [spaced, List.intercalate]

lemma spaced_cons (w v : List Char) (ws : List (List Char)) :
    spaced (w :: v :: ws) = w ++ ' ' :: spaced (v :: ws) := by
  simp [spaced, List.intercalate]

lemma head_spaced {w : List Char} (h : w ≠ []) (ws : List (List Char)) :
    (spaced (w :: ws)).head? = w.head? := by
  obtain ⟨c, w, rfl⟩ := List.exists_cons_of_ne_nil h
  cases ws with
  | nil => rw [spaced_singleton]
  | cons v ws => rw [spaced_cons]; rfl

/-- lexemes that are tokens, with a space between any two of them, are lexemes of their text -/
theorem lexemes_spaced {ls : List Lexeme} (h : ∀ l ∈ ls, Standing l) :
    lexemes (spaced (ls.map Lexeme.text)) = (ls.intersperse space, []) := by
  induction ls with
  | nil => exact lexemes_nil
  | cons l ls ih =>
    obtain ⟨⟨⟨cs, r, hcut⟩, htoken⟩, hls⟩ := List.forall_mem_cons.mp h
    have hrest := ih hls
    cases ls with
    | nil =>
      have hone := lexeme?_kept hcut htoken ends_nil
      rw [List.append_nil] at hone
      rw [List.map_cons, List.map_nil, spaced_singleton, lexemes_of_some hone, lexemes_nil]
      rfl
    | cons m ls =>
      obtain ⟨⟨cs', r', hcut'⟩, htoken'⟩ := (List.forall_mem_cons.mp hls).1
      have hends : Ends (' ' :: spaced ((m :: ls).map Lexeme.text)) := ends_cons (by decide) _
      have hgap : lexeme? (' ' :: spaced ((m :: ls).map Lexeme.text)) =
          some (space, spaced ((m :: ls).map Lexeme.text)) := by
        refine lexeme?_space ?_
        rw [List.map_cons, head_spaced (lexeme?_append hcut').2]
        exact head_of_token hcut' htoken'
      rw [List.map_cons, List.map_cons, spaced_cons, ← List.map_cons,
        lexemes_of_some (lexeme?_kept hcut htoken hends), lexemes_of_some hgap, hrest]
      rfl

lemma map_lexeme_mark (line : Nat) (ls : List Lexeme) :
    (mark line ls).map lexeme = ls.filter fun l => l.kind.isToken := by
  induction ls generalizing line with
  | nil => rfl
  | cons l ls ih =>
    rw [mark, List.filter_cons]
    split
    · rw [List.map_cons, ih]
      rfl
    · exact ih _

lemma filter_spaced {ls : List Lexeme} (h : ∀ l ∈ ls, l.kind.isToken = true) :
    (ls.intersperse space).filter (fun l => l.kind.isToken) = ls := by
  induction ls with
  | nil => rfl
  | cons l ls ih =>
    obtain ⟨hl, hls⟩ := List.forall_mem_cons.mp h
    have hrest := ih hls
    cases ls with
    | nil => exact List.filter_cons_of_pos hl
    | cons m ls =>
      show (l :: space :: (m :: ls).intersperse space).filter _ = _
      rw [List.filter_cons, if_pos hl, List.filter_cons, if_neg (by decide), hrest]

theorem scan_rendered {cs : List Char} {ts : List Token} (h : scan cs = .ok ts) :
    ∃ us, scan (rendered ts) = .ok us ∧ us.map lexeme = ts.map lexeme := by
  obtain ⟨-, hts⟩ := scan_ok h
  obtain ⟨body, e, hbody, he, hne⟩ := scan_endOfFile h
  obtain ⟨rfl, hlast⟩ := List.append_inj' (hts.symm.trans hbody) rfl
  have hstanding : ∀ l ∈ (lexemes cs).1.filter fun l => l.kind.isToken, Standing l := by
    intro l hl
    obtain ⟨hmem, htoken⟩ := List.mem_filter.mp hl
    refine ⟨?_, htoken⟩
    exact lexemes_forall (P := fun l => ∃ cs r, lexeme? cs = some (l, r))
      (fun ds l r hcut => ⟨ds, r, hcut⟩) cs l hmem
  have hfilter : ts.filter (fun t => !t.isKind .endOfFile) = mark 1 (lexemes cs).1 := by
    rw [hbody, List.filter_append, List.filter_eq_self.mpr, List.filter_cons_of_neg]
    · exact List.append_nil _
    · simp [isKind, he]
    · intro t ht
      simp [isKind, hne t ht]
  have htext : (mark 1 (lexemes cs).1).map Token.text =
      ((lexemes cs).1.filter fun l => l.kind.isToken).map Lexeme.text := by
    rw [← map_lexeme_mark 1, List.map_map]
    rfl
  have hscan := scan_of_lexemes (lexemes_spaced hstanding)
  unfold rendered
  rw [hfilter, htext]
  refine ⟨_, hscan, ?_⟩
  rw [hts, List.map_append, List.map_append, map_lexeme_mark, map_lexeme_mark,
    filter_spaced fun l hl => (hstanding l hl).2]
  rfl

end Gemfile.Token
