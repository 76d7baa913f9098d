import Gemfile.Proofs.Pattern.Lexeme
import Gemfile.Proofs.Scan

/-!
# A text and its lexemes

* `Applies cs l r`     the first alternative that matches the beginning of `cs` takes `l` and leaves `r`
* `Covered cs ls r`    `cs` begins with the lexemes `ls`, each of them taken in this way, and `r` is left
* `placed ls`          the tokens of lexemes, each on the line that the text in front of it ends on
* `scan_covered`       a text is covered up to its end, or up to the character it is refused for
-/

namespace Gemfile.Token
open Pattern (first?)

/-- of the alternatives in their order, none before that of `l` matches -/
def Applies (cs : List Char) (l : Lexeme) (r : List Char) : Prop :=
  ∃ before p later, alternatives = before ++ (l.kind, p) :: later ∧
    (∀ k ∈ before, first? k.2 cs = none) ∧ first? p cs = some (l.text, r)

inductive Covered : List Char → List Lexeme → List Char → Prop where
  | nil (cs : List Char) : Covered cs [] cs
  | cons {cs cs' r : List Char} {l : Lexeme} {ls : List Lexeme} (first : Applies cs l cs')
      (rest : Covered cs' ls r) : Covered cs (l :: ls) r

/-- the tokens among lexemes, each with the line that it stands on -/
def placed (ls : List Lexeme) : List Token :=
  (ls.zipIdx.filter fun x => x.1.kind.isToken).map fun x =>
    ⟨x.1.kind, x.1.text, 1 + lineBreaks (spellings (ls.take x.2))⟩

/-! ## one lexeme -/

lemma firstCut_first {cs : List Char} {ps : List (Kind × Pattern)} {l : Lexeme} {r : List Char}
    (h : firstCut cs (ps.map fun k => (k.1, first? k.2)) = some (l, r)) :
    ∃ before p later, ps = before ++ (l.kind, p) :: later ∧
      (∀ k ∈ before, first? k.2 cs = none) ∧ first? p cs = some (l.text, r) := by
  induction ps with
  | nil => cases h
  | cons k ps ih =>
    rw [List.map_cons, firstCut] at h
    cases hk : first? k.2 cs with
    | some t =>
      rw [hk] at h
      obtain ⟨rfl, rfl⟩ := Prod.mk.inj (Option.some.inj h)
      exact ⟨[], k.2, ps, rfl, fun _ hm => absurd hm List.not_mem_nil, hk⟩
    | none =>
      rw [hk] at h
      obtain ⟨before, p, later, rfl, hb, hp⟩ := ih h
      refine ⟨k :: before, p, later, rfl, ?_, hp⟩
      intro k' hm
      rcases List.mem_cons.mp hm with rfl | hm
      · exact hk
      · exact hb k' hm

lemma firstCut_none {cs : List Char} {ps : List (Kind × Pattern)}
    (h : firstCut cs (ps.map fun k => (k.1, first? k.2)) = none) :
    ∀ k ∈ ps, first? k.2 cs = none := by
  induction ps with
  | nil => exact fun _ hm => absurd hm List.not_mem_nil
  | cons k ps ih =>
    rw [List.map_cons, firstCut] at h
    cases hk : first? k.2 cs with
    | some t =>
      rw [hk] at h
      cases h
    | none =>
      rw [hk] at h
      exact List.forall_mem_cons.mpr ⟨hk, ih h⟩

theorem applies_of_lexeme? {cs : List Char} {l : Lexeme} {r : List Char}
    (h : lexeme? cs = some (l, r)) : Applies cs l r := by
  unfold lexeme? at h
  rw [cuts_eq] at h
  exact firstCut_first h

theorem none_applies {cs : List Char} (h : lexeme? cs = none) :
    ∀ k ∈ alternatives, first? k.2 cs = none := by
  unfold lexeme? at h
  rw [cuts_eq] at h
  exact firstCut_none h

/-! ## all lexemes -/

/-- lexemes are taken as long as an alternative matches what is left -/
theorem covered_lexemes (cs : List Char) :
    Covered cs (lexemes cs).1 (lexemes cs).2 ∧ lexeme? (lexemes cs).2 = none := by
  suffices h : ∀ n, ∀ cs : List Char, cs.length ≤ n →
      Covered cs (lexemes cs).1 (lexemes cs).2 ∧ lexeme? (lexemes cs).2 = none from
    h cs.length cs (Nat.le_refl _)
  intro n
  induction n with
  | zero =>
    intro cs hn
    rw [List.length_eq_zero_iff.mp (Nat.le_zero.mp hn), lexemes_nil]
    exact ⟨.nil [], lexeme?_nil⟩
  | succ n ih =>
    intro cs hn
    cases hl : lexeme? cs with
    | none =>
      rw [lexemes_of_none hl]
      exact ⟨.nil cs, hl⟩
    | some t =>
      obtain ⟨l, r⟩ := t
      have hlt := length_lexeme?_lt hl
      obtain ⟨hr, hn⟩ := ih r (by omega)
      rw [lexemes_of_some hl]
      exact ⟨.cons (applies_of_lexeme? hl) hr, hn⟩

lemma lexemes_nonempty (cs : List Char) : ∀ l ∈ (lexemes cs).1, l.text ≠ [] :=
  lexemes_forall (fun _ _ _ h => (lexeme?_append h).2) cs

/-- a token is on the line that its lexeme begins on -/
lemma mark_zipIdx (ls done : List Lexeme) :
    mark (1 + lineBreaks (spellings done)) ls =
      ((ls.zipIdx done.length).filter fun x => x.1.kind.isToken).map fun x =>
        ⟨x.1.kind, x.1.text, 1 + lineBreaks (spellings ((done ++ ls).take x.2))⟩ := by
  induction ls generalizing done with
  | nil => rfl
  | cons l ls ih =>
    have hs : spellings (done ++ [l]) = spellings done ++ l.text := by
      unfold spellings
      rw [List.flatMap_append, List.flatMap_singleton]
    have hr := ih (done ++ [l])
    rw [hs, lineBreaks_append, ← Nat.add_assoc, List.append_assoc, List.singleton_append,
      List.length_append, List.length_singleton] at hr
    rw [mark, hr, List.zipIdx_cons, List.filter_cons]
    dsimp only
    by_cases hl : l.kind.isToken = true
    · rw [if_pos hl, if_pos hl, List.map_cons, List.take_left]
    · rw [if_neg hl, if_neg hl]

lemma mark_placed (ls : List Lexeme) : mark 1 ls = placed ls := mark_zipIdx ls []

/-- a text is lexemes to its end, and has their tokens, or no alternative matches behind its
lexemes -/
theorem scan_covered (cs : List Char) :
    ∃ ls r, Covered cs ls r ∧ cs = spellings ls ++ r ∧ (∀ l ∈ ls, l.text ≠ []) ∧
      ((r = [] ∧ scan cs = .ok (placed ls ++ [endOfFile (1 + lineBreaks cs)])) ∨
        ∃ c r', r = c :: r' ∧ (∀ k ∈ alternatives, first? k.2 r = none) ∧
          scan cs = .error ⟨1 + lineBreaks (spellings ls), .unexpectedCharacter c⟩) := by
  obtain ⟨hc, hn⟩ := covered_lexemes cs
  have hs := spellings_lexemes cs
  have hne := lexemes_nonempty cs
  rcases hl : lexemes cs with ⟨ls, r⟩
  rw [hl] at hc hn hs hne
  refine ⟨ls, r, hc, hs.symm, hne, ?_⟩
  cases r with
  | nil =>
    rw [List.append_nil] at hs
    left
    refine ⟨rfl, ?_⟩
    rw [scan_of_lexemes hl, mark_placed, hs]
  | cons c r' =>
    right
    refine ⟨c, r', rfl, none_applies hn, ?_⟩
    rw [scan, hl]

end Gemfile.Token
