import Gemfile.Proofs.Dot.Identifier

/-!
# The lexemes of a graph

Each piece of the text of a graph is read as its own lexemes, whatever stands behind it, if and only
if the names in it are sound.

* `Dot.Reads p w ls G`   in front of what `p` allows, `w` is read as `ls` if and only if `G` holds
* `Reads.append`         pieces one behind the other
* `Dot.lexemesOf i`      the lexemes of a node or an edge
* `Dot.textsOf i`        the texts that are written for it
* `reads_line`           its line is read as its lexemes if and only if these texts are sound
* `lex_body`             so is the whole text behind the comment
-/

namespace Gemfile.Dot

open Gemfile.Graph (Item)

/-- in front of what `p` allows, a text is read as some lexemes if and only if `G` holds -/
def Reads (p : Char → Prop) (w : List Char) (ls : List Lexeme) (G : Prop) : Prop :=
  ∀ r us, (∀ c, r.head? = some c → p c) → (lex (w ++ r) = some (ls ++ us) ↔ G ∧ lex r = some us)

def anything (_ : Char) : Prop := True

/-- what may stand behind an ID -/
def afterId (c : Char) : Prop := c ∈ [' ', ']', '\n', '=']

/-- what may stand behind the break of a line -/
def afterBreak (c : Char) : Prop := c ≠ '#'

instance : DecidablePred afterId := fun c => inferInstanceAs (Decidable (c ∈ [' ', ']', '\n', '=']))

instance : DecidablePred afterBreak := fun c => inferInstanceAs (Decidable (c ≠ '#'))

section
variable {p q : Char → Prop} {v w : List Char} {ls ms : List Lexeme} {G H : Prop}

lemma Reads.congr (h : Reads p w ls G) (e : G ↔ H) : Reads p w ls H :=
  fun r us hr => (h r us hr).trans (and_congr_left fun _ => e)

lemma Reads.append (h : Reads p w ls G) (h' : Reads q v ms H)
    (hv : ∀ r, (∀ c, r.head? = some c → q c) → ∀ c, (v ++ r).head? = some c → p c) :
    Reads q (w ++ v) (ls ++ ms) (G ∧ H) := by
  intro r us hr
  rw [List.append_assoc, List.append_assoc, h _ _ (hv r hr), h' r us hr, and_assoc]

lemma Reads.append_cons {c : Char} (h : Reads p w ls G) (h' : Reads q (c :: v) ms H) (hc : p c) :
    Reads q (w ++ c :: v) (ls ++ ms) (G ∧ H) := by
  refine h.append h' fun r _ d hd => ?_
  cases hd
  exact hc

/-- a piece that is read in any case -/
lemma Reads.cons {c : Char} (h : Reads anything [c] ls True) (h' : Reads q v ms H) :
    Reads q (c :: v) (ls ++ ms) H :=
  (h.append h' fun _ _ _ _ => trivial).congr (and_iff_right trivial)

lemma reads_of_lexeme {l : Lexeme}
    (h : ∀ r, (∀ c, r.head? = some c → p c) → lexeme? (w ++ r) = some (l, r)) :
    Reads p w (before l []) True := by
  intro r us hr
  rw [lex_of_some (h r hr), and_iff_right trivial, Option.map_eq_some_iff]
  unfold before
  by_cases hl : l.kind = .gap
  · simp [if_pos hl]
  · simp [if_neg hl]

end

/-! ## marks and gaps -/

def markOf (w : List Char) : Lexeme := ⟨.mark, w⟩

lemma reads_blank {c : Char} (hc : c = ' ' ∨ c = '\t') : Reads anything [c] [] True := by
  refine reads_of_lexeme (l := ⟨.gap, [c]⟩) fun r _ => lexeme?_of_gap ?_
  have hd : directive (c :: r) = none := by
    refine Token.after_none ?_ _ r
    rcases hc with rfl | rfl <;> decide
  have hb : isBlank c = true := by
    rcases hc with rfl | rfl <;> decide
  show gap (c :: r) = _
  unfold gap Token.either
  rw [hd]
  dsimp only
  rw [Token.single_cons, if_pos hb]

lemma lexeme?_break {r : List Char} (hr : ∀ c, r.head? = some c → afterBreak c) :
    lexeme? ('\n' :: r) = some (⟨.gap, ['\n']⟩, r) := by
  have hd : directive ('\n' :: r) = none := by
    unfold directive
    rw [Token.after_cons, if_pos rfl]
    cases r with
    | nil => rfl
    | cons c r =>
      rw [Token.after_none (hr c rfl)]
      rfl
  refine lexeme?_of_gap ?_
  unfold gap Token.either
  rw [hd]
  rfl

lemma reads_break : Reads afterBreak ['\n'] [] True :=
  reads_of_lexeme (l := ⟨.gap, ['\n']⟩) fun _ => lexeme?_break

lemma gap_of_mark {c : Char} (hc : isMark c = true ∨ c = '-') (r : List Char) :
    gap (c :: r) = none := by
  have hne : ∀ d ∈ ['\n', ' ', '\t', '\r', '/'], c ≠ d := by
    have hd : ∀ d ∈ ['\n', ' ', '\t', '\r', '/'], ¬ (isMark d = true ∨ d = '-') :=
      Token.checked (by decide)
    rintro d hm rfl
    exact hd c hm hc
  simp only [List.forall_mem_cons] at hne
  obtain ⟨h1, h2, h3, h4, h5, -⟩ := hne
  refine Token.either_none (Token.after_none h1 _ r) (Token.either_none ?_ (Token.after_none h5 _ r))
  exact Token.single_none (by simp [isBlank, h1, h2, h3, h4]) r

lemma reads_mark {c : Char} (hc : isMark c = true) : Reads anything [c] [markOf [c]] True := by
  refine reads_of_lexeme (l := markOf [c]) fun r _ => ?_
  have hm : mark (c :: r) = some ([c], r) := by
    unfold mark Token.either
    rw [Token.single_cons, if_pos hc]
  show lexeme? (c :: r) = _
  unfold lexeme?
  rw [gap_of_mark (.inl hc), hm]
  rfl

lemma reads_arrow : Reads anything ['-', '>'] [markOf ['-', '>']] True := by
  refine reads_of_lexeme (l := markOf ['-', '>']) fun r _ => ?_
  show lexeme? ('-' :: '>' :: r) = _
  unfold lexeme?
  rw [gap_of_mark (.inr rfl)]
  rfl

lemma reads_digraph : Reads afterId "digraph".toList [⟨.keyword, "digraph".toList⟩] True :=
  have h : isPlain "digraph".toList = true := by decide
  reads_of_lexeme (l := ⟨.keyword, "digraph".toList⟩) fun _ hr => lexeme?_plain h hr

/-! ## names -/

def idOf (s : String) : Lexeme := ⟨.id, written s.toList⟩

/-- a name is read as its ID, with or without the line break behind it -/
lemma reads_identifier (s : String) :
    Reads afterId (identifierChars s.toList) [idOf s] (Sound s.toList) := by
  intro r us hr
  rcases eq_withoutFinalBreak (identifierChars s.toList) with h | h
  · rw [h]
    exact lex_written_iff hr us
  · have hb : ∀ c, r.head? = some c → afterBreak c := by
      rintro c hc rfl
      exact absurd (hr '#' hc) (by decide)
    rw [h, List.append_assoc]
    refine (lex_written_iff (behind_cons (by decide) r) us).trans (and_congr_right fun _ => ?_)
    exact (reads_break r us hb).trans (and_iff_right trivial)

/-- a name of attributes -/
def attributeNames : List String := ["label", "shape", "style"]

lemma reads_attributeName {n : String} (hn : n ∈ attributeNames) :
    Reads afterId n.toList [idOf n] True := by
  have h : ∀ n ∈ attributeNames, isPlain n.toList = true ∧ withoutFinalBreak n.toList = n.toList ∧
      isKeyword n.toList = false ∧ idOf n = ⟨.id, n.toList⟩ := by
    unfold attributeNames
    simp only [List.forall_mem_cons]
    decide
  obtain ⟨hp, hw, hk, hi⟩ := h n hn
  have hl : ∀ r, Behind r → lexeme? (n.toList ++ r) = some (idOf n, r) := by
    intro r hr
    have h1 := lexeme?_plain hp hr
    rw [hw, hk] at h1
    rw [hi]
    exact h1
  have h2 : before (idOf n) [] = [idOf n] := rfl
  rw [← h2]
  exact reads_of_lexeme hl

/-! ## attributes -/

/-- the attributes of an item with their names -/
def attributesOf : Item → List (String × String)
  | .node _ label shape style =>
    label.toList.map (("label", ·)) ++ ("shape", shape) :: style.toList.map (("style", ·))
  | .edge _ _ style => style.toList.map (("style", ·))

def attributeChars (a : String × String) : List Char :=
  a.1.toList ++ '=' :: identifierChars a.2.toList

def attributeLexemes (a : String × String) : List Lexeme := [idOf a.1, markOf ['='], idOf a.2]

lemma attributesOf_names (i : Item) : ∀ a ∈ attributesOf i, a.1 ∈ attributeNames := by
  cases i with
  | node id label shape style => cases label <;> cases style <;> simp [attributesOf, attributeNames]
  | edge source target style => cases style <;> simp [attributesOf, attributeNames]

lemma reads_attribute {a : String × String} (ha : a.1 ∈ attributeNames) :
    Reads afterId (attributeChars a) (attributeLexemes a) (Sound a.2.toList) := by
  have h := (reads_mark (c := '=') (by decide)).cons (reads_identifier a.2)
  exact ((reads_attributeName ha).append_cons h (by decide)).congr (and_iff_right trivial)

/-- attributes with spaces between them -/
lemma reads_attributes {as : List (String × String)} (hne : as ≠ [])
    (ha : ∀ a ∈ as, a.1 ∈ attributeNames) :
    Reads afterId ([' '].intercalate (as.map attributeChars)) (as.flatMap attributeLexemes)
      (∀ a ∈ as, Sound a.2.toList) := by
  induction as with
  | nil => exact absurd rfl hne
  | cons a as ih =>
    obtain ⟨h1, h2⟩ := List.forall_mem_cons.mp ha
    cases as with
    | nil =>
      have hw : [' '].intercalate ([a].map attributeChars) = attributeChars a := by
        simp [List.intercalate]
      have hl : [a].flatMap attributeLexemes = attributeLexemes a := List.append_nil _
      rw [hw, hl]
      exact (reads_attribute h1).congr (by simp)
    | cons b as =>
      have hw : [' '].intercalate ((a :: b :: as).map attributeChars) =
          attributeChars a ++ ' ' :: [' '].intercalate ((b :: as).map attributeChars) := by
        simp [List.intercalate]
      have hrest := (reads_blank (.inl rfl)).cons (ih (List.cons_ne_nil _ _) h2)
      rw [hw, List.flatMap_cons]
      exact ((reads_attribute h1).append_cons hrest (by decide)).congr
        (by rw [List.forall_mem_cons (l := b :: as)])

/-! ## lines -/

/-- an item up to its attributes -/
def headChars : Item → List Char
  | .node id _ _ _ => identifierChars id.toList
  | .edge source target _ =>
    identifierChars source.toList ++ " -> ".toList ++ identifierChars target.toList

def headLexemes : Item → List Lexeme
  | .node id _ _ _ => [idOf id]
  | .edge source target _ => [idOf source, markOf ['-', '>'], idOf target]

/-- attributes in brackets, if there are any -/
def bracketedChars (as : List (String × String)) : List Char :=
  if as = [] then [] else " [".toList ++ [' '].intercalate (as.map attributeChars) ++ [']']

def bracketed (as : List (String × String)) : List Lexeme :=
  if as = [] then [] else markOf ['['] :: as.flatMap attributeLexemes ++ [markOf [']']]

/-- the lexemes of a node or an edge -/
def lexemesOf (i : Item) : List Lexeme := headLexemes i ++ bracketed (attributesOf i)

/-- the ids of an item -/
def endsOf : Item → List String
  | .node id _ _ _ => [id]
  | .edge source target _ => [source, target]

/-- the texts that are written for an item -/
def textsOf (i : Item) : List String := endsOf i ++ (attributesOf i).map Prod.snd

lemma reads_head (i : Item) :
    Reads afterId (headChars i) (headLexemes i) (∀ x ∈ endsOf i, Sound x.toList) := by
  cases i with
  | node id label shape style => exact (reads_identifier id).congr (by simp [endsOf])
  | edge source target style =>
    have hr := (reads_blank (.inl rfl)).cons (reads_identifier target)
    have hm := (reads_arrow.append_cons hr trivial).congr (and_iff_right trivial)
    have hs := (reads_blank (c := ' ') (.inl rfl)).cons hm
    have h := (reads_identifier source).append_cons hs (by decide)
    have hw : headChars (.edge source target style) =
        identifierChars source.toList ++ ' ' :: (['-', '>'] ++ ' ' :: identifierChars target.toList) := by
      show identifierChars source.toList ++ " -> ".toList ++ identifierChars target.toList = _
      rw [List.append_assoc]
      rfl
    rw [hw]
    exact h.congr (by simp [endsOf])

/-- the attributes of an item up to the end of its line -/
lemma reads_bracketed {as : List (String × String)} (ha : ∀ a ∈ as, a.1 ∈ attributeNames) :
    ∃ c v, bracketedChars as ++ ['\n'] = c :: v ∧ afterId c ∧
      Reads afterBreak (c :: v) (bracketed as) (∀ a ∈ as, Sound a.2.toList) := by
  unfold bracketedChars
  by_cases he : as = []
  · refine ⟨'\n', [], by rw [if_pos he]; rfl, by decide, ?_⟩
    rw [bracketed, if_pos he, he]
    exact reads_break.congr (by simp)
  · have hb := (reads_mark (c := ']') (by decide)).cons reads_break
    have hin := (reads_attributes he ha).append_cons hb (by decide)
    have h := (reads_blank (c := ' ') (.inl rfl)).cons ((reads_mark (c := '[') (by decide)).cons hin)
    refine ⟨' ', '[' :: ([' '].intercalate (as.map attributeChars) ++ ']' :: ['\n']), ?_, by decide,
      ?_⟩
    · rw [if_neg he, List.append_assoc, List.append_assoc]
      rfl
    · rw [bracketed, if_neg he]
      exact h.congr (and_iff_left trivial)

lemma toList_setting (n : String) (v : Option String) :
    setting n v = (v.toList.map ((n, ·))).map fun a => a.1 ++ "=" ++ identifier a.2 := by
  cases v <;> rfl

lemma toList_identifier (s : String) : (identifier s).toList = identifierChars s.toList :=
  String.toList_ofList

lemma toList_attribute (a : String × String) :
    (a.1 ++ "=" ++ identifier a.2).toList = attributeChars a := by
  unfold attributeChars
  rw [String.toList_append, String.toList_append, toList_identifier, List.append_assoc]
  rfl

lemma toList_attributes (as : List (String × String)) :
    (attributes (as.map fun a => a.1 ++ "=" ++ identifier a.2)).toList = bracketedChars as := by
  unfold bracketedChars
  cases as with
  | nil => rfl
  | cons a as =>
    have hne : ((a :: as).map fun a => a.1 ++ "=" ++ identifier a.2).isEmpty = false := rfl
    unfold attributes
    rw [hne, if_neg Bool.false_ne_true, if_neg (List.cons_ne_nil _ _), String.toList_append,
      String.toList_append, String.toList_intercalate, List.map_map]
    have hm : (String.toList ∘ fun a : String × String => a.1 ++ "=" ++ identifier a.2) =
        attributeChars := funext toList_attribute
    rw [hm]
    rfl

lemma toList_line (i : Item) :
    (line i).toList = '\t' :: (headChars i ++ (bracketedChars (attributesOf i) ++ ['\n'])) := by
  rw [← toList_attributes]
  cases i with
  | node id label shape style =>
    have ha : setting "label" label ++ setting "shape" (some shape) ++ setting "style" style =
        (attributesOf (.node id label shape style)).map fun a => a.1 ++ "=" ++ identifier a.2 := by
      rw [toList_setting, toList_setting, toList_setting, ← List.map_append, ← List.map_append,
        List.append_assoc]
      rfl
    show ("\t" ++ identifier id ++ attributes (setting "label" label ++
      setting "shape" (some shape) ++ setting "style" style) ++ "\n").toList = _
    rw [ha, String.toList_append, String.toList_append, String.toList_append, toList_identifier,
      List.append_assoc, List.append_assoc]
    rfl
  | edge source target style =>
    show ("\t" ++ identifier source ++ " -> " ++ identifier target ++
      attributes (setting "style" style) ++ "\n").toList = _
    rw [toList_setting, String.toList_append, String.toList_append, String.toList_append,
      String.toList_append, String.toList_append, toList_identifier, toList_identifier]
    unfold headChars
    simp only [List.append_assoc]
    rfl

/-- a line is read as the lexemes of its item if and only if the texts that are written are sound -/
theorem reads_line (i : Item) : ∃ v, (line i).toList = '\t' :: v ∧
    Reads afterBreak ('\t' :: v) (lexemesOf i) (∀ x ∈ textsOf i, Sound x.toList) := by
  obtain ⟨c, v, hv, hc, hb⟩ := reads_bracketed (attributesOf_names i)
  rw [toList_line, hv]
  refine ⟨_, rfl, ?_⟩
  have h := (reads_blank (c := '\t') (.inr rfl)).cons ((reads_head i).append_cons hb hc)
  refine h.congr ?_
  unfold textsOf
  rw [List.forall_mem_append, List.forall_mem_map]

/-! ## the whole text -/

/-- the text of some items behind the comment -/
def body (items : List Item) : List Char :=
  "digraph \x7b\n".toList ++ items.flatMap (fun i => (line i).toList) ++ "\x7d\n".toList

/-- the nodes and edges, each by its lexemes -/
def lexemesOfAll (items : List Item) : List Lexeme :=
  ⟨.keyword, "digraph".toList⟩ :: markOf ['{'] :: items.flatMap lexemesOf ++ [markOf ['}']]

lemma toList_render (comment : String) (items : List Item) :
    (render comment items).toList = "// ".toList ++ comment.toList ++ '\n' :: body items := by
  unfold render body
  simp only [String.toList_append, String.toList_join, List.flatMap_map, List.append_assoc]
  rfl

/-- lines up to the end of the text -/
lemma reads_lines (items : List Item) : ∃ c v,
    items.flatMap (fun i => (line i).toList) ++ "\x7d\n".toList = c :: v ∧ afterBreak c ∧
      Reads afterBreak (c :: v) (items.flatMap lexemesOf ++ [markOf ['}']])
        (∀ i ∈ items, ∀ x ∈ textsOf i, Sound x.toList) := by
  induction items with
  | nil =>
    refine ⟨'}', ['\n'], rfl, by decide, ?_⟩
    exact ((reads_mark (c := '}') (by decide)).cons reads_break).congr (by simp)
  | cons i items ih =>
    obtain ⟨c, v, hv, hc, hr⟩ := ih
    obtain ⟨w, hw, hl⟩ := reads_line i
    refine ⟨'\t', w ++ c :: v, ?_, by decide, ?_⟩
    · rw [List.flatMap_cons, List.append_assoc, hv, hw]
      rfl
    · rw [List.flatMap_cons, List.append_assoc]
      exact (hl.append_cons hr hc).congr (by rw [List.forall_mem_cons])

/-- what stands behind the comment is read as the nodes and edges if and only if all texts are sound -/
theorem lex_body (items : List Item) :
    lex (body items) = some (lexemesOfAll items) ↔ ∀ i ∈ items, ∀ x ∈ textsOf i, Sound x.toList := by
  obtain ⟨c, v, hv, hc, hr⟩ := reads_lines items
  have hb := (reads_break.append_cons hr hc).congr (and_iff_right trivial)
  have hm := (reads_blank (c := ' ') (.inl rfl)).cons ((reads_mark (c := '{') (by decide)).cons hb)
  have h := (reads_digraph.append_cons hm (by decide)) [] [] nofun
  have hw : body items = "digraph".toList ++ ' ' :: '{' :: (['\n'] ++ c :: v) := by
    unfold body
    rw [List.append_assoc, hv]
    rfl
  rw [List.append_nil, List.append_nil, lex_nil, and_iff_left rfl, true_and] at h
  rw [hw]
  exact h

end Gemfile.Dot
