import Gemfile.Proofs.Dot.Reading
import Gemfile.Proofs.Drawing

/-!
# The text of a graph and the names in it

* `Graph.Framed i`     all texts of an item but its label are among those that the program has chosen
* `Graph.framed_itemsOf`   the items of a state are
* `Dot.sound_chosen`   and these are sound, so what matters are the labels
* `Dot.Intact`         the text of a graph is a comment of one line and its nodes and edges
* `State.dot_intact_iff`   exactly when the labels are sound and the file has no line break in its name
* `State.dot_broken`   a gem whose name ends in a backslash breaks the text
-/

namespace Gemfile

/-! ## texts that the program has chosen -/

namespace Graph

open Dot (textsOf endsOf attributesOf)

def Chosen (x : String) : Prop :=
  x ∈ [fileId, "folder", "oval", "rectangle", "solid", "dashed"] ∨ ∃ n, x = gemId n ∨ x = groupId n

def labelOf? : Item → Option String
  | .node _ label _ _ => label
  | .edge _ _ _ => none

def labels (items : List Item) : List String := items.filterMap labelOf?

def Framed (i : Item) : Prop := ∀ x ∈ textsOf i, labelOf? i = some x ∨ Chosen x

lemma chosen_file : Chosen fileId := .inl List.mem_cons_self

lemma chosen_gem (n : Nat) : Chosen (gemId n) := .inr ⟨n, .inl rfl⟩

lemma chosen_group (n : Nat) : Chosen (groupId n) := .inr ⟨n, .inr rfl⟩

lemma chosen_none : ∀ x ∈ (none : Option String), Chosen x := nofun

lemma chosen_style (without : List Scalar) (name : Scalar) : Chosen (styleOf without name) := by
  unfold styleOf Chosen
  split <;> simp

lemma framed_node {id label shape : String} {style : Option String} (hi : Chosen id)
    (hshape : Chosen shape) (hs : ∀ x ∈ style, Chosen x) : Framed (.node id (some label) shape style) := by
  intro x hx
  cases style with
  | none =>
    simp only [textsOf, endsOf, attributesOf, Option.toList, List.map_cons, List.map_nil,
      List.cons_append, List.nil_append, List.mem_cons, List.not_mem_nil, or_false] at hx
    rcases hx with rfl | rfl | rfl
    · exact .inr hi
    · exact .inl rfl
    · exact .inr hshape
  | some s =>
    simp only [textsOf, endsOf, attributesOf, Option.toList, List.map_cons, List.map_nil,
      List.cons_append, List.nil_append, List.mem_cons, List.not_mem_nil, or_false] at hx
    rcases hx with rfl | rfl | rfl | rfl
    · exact .inr hi
    · exact .inl rfl
    · exact .inr hshape
    · exact .inr (hs x rfl)

lemma framed_edge {source target : String} {style : Option String} (h : Chosen source)
    (ht : Chosen target) (hs : ∀ x ∈ style, Chosen x) : Framed (.edge source target style) := by
  intro x hx
  refine .inr ?_
  rcases List.mem_append.mp hx with hx | hx
  · rcases List.mem_cons.mp hx with rfl | hx
    · exact h
    · rw [List.mem_singleton.mp hx]
      exact ht
  · cases style with
    | none => cases hx
    | some s =>
      rw [List.mem_singleton.mp hx]
      exact hs s rfl

lemma framed_gemsDrawn {source : String} {look : Option String} (h : Chosen source)
    (hl : ∀ x ∈ look, Chosen x) (met gems : List Gem) :
    ∀ i ∈ gemsDrawn source look met gems, Framed i := by
  induction gems generalizing met with
  | nil => exact List.forall_mem_nil _
  | cons gem gems ih =>
    rw [gemsDrawn, gemDrawn, List.append_assoc, List.forall_mem_append, List.forall_mem_append]
    refine ⟨?_, ?_, ih (meet met gem)⟩
    · unfold newBox
      split
      · exact List.forall_mem_nil _
      · intro i hi
        rw [List.mem_singleton.mp hi]
        exact framed_node (chosen_gem _) (.inl (by decide)) chosen_none
    · intro i hi
      rw [List.mem_singleton.mp hi]
      exact framed_edge h (chosen_gem _) hl

lemma framed_groupsDrawn (without : List Scalar) (met : List Gem) (k : Nat)
    (groups : List (String × List Gem)) : ∀ i ∈ groupsDrawn without met k groups, Framed i := by
  induction groups generalizing met k with
  | nil => exact List.forall_mem_nil _
  | cons group groups ih =>
    have hs : ∀ x ∈ some (styleOf without (.str group.1)), Chosen x := by
      intro x hx
      rw [← Option.mem_some.mp hx]
      exact chosen_style without _
    rw [groupsDrawn, List.append_assoc, List.forall_mem_append, List.forall_mem_append]
    refine ⟨?_, framed_gemsDrawn (chosen_group k) hs met group.2, ih _ (k + 1)⟩
    rw [List.forall_mem_cons, List.forall_mem_singleton]
    exact ⟨framed_node (chosen_group k) (.inl (by decide)) hs,
      framed_edge chosen_file (chosen_group k) chosen_none⟩

theorem framed_itemsOf (g : Setting) (s : State) : ∀ i ∈ itemsOf g s, Framed i := by
  unfold itemsOf
  rw [List.append_assoc, List.forall_mem_append, List.forall_mem_append, List.forall_mem_singleton]
  exact ⟨framed_node chosen_file (.inl (by decide)) chosen_none,
    framed_gemsDrawn chosen_file chosen_none _ _, framed_groupsDrawn _ _ _ _⟩

lemma labelOf?_mem_textsOf {i : Item} {x : String} (h : labelOf? i = some x) : x ∈ textsOf i := by
  cases i with
  | node id label shape style =>
    obtain rfl : label = some x := h
    simp [textsOf, attributesOf]
  | edge source target style => cases h

end Graph

namespace Dot

open Gemfile.Graph (Item Chosen labels gemId groupId)

lemma sound_of_name {cs : List Char} (h : isName cs = true) (hk : isKeyword cs = false) : Sound cs := by
  have hchars : ∀ c ∈ cs, Token.isNameChar c = true := by
    cases cs with
    | nil => cases h
    | cons c cs =>
      obtain ⟨hc, hs⟩ := Bool.and_eq_true_iff.mp h
      have hc : Token.isNameChar c = true := by
        unfold Token.isNameStart at hc
        unfold Token.isNameChar Char.isAlphanum
        rcases Bool.or_eq_true_iff.mp hc with hc | hc
        · rw [hc]
          rfl
        · rw [hc, Bool.or_true]
      exact List.forall_mem_cons.mpr ⟨hc, List.all_eq_true.mp hs⟩
  have hw : withoutFinalBreak cs = cs := by
    refine withoutFinalBreak_of_ne fun hl => ?_
    exact absurd (hchars '\n' (List.mem_of_getLast? hl)) (by decide)
  have he : ¬ isEnclosed cs = true := by
    intro he
    obtain ⟨body, hb⟩ := enclosed_eq he
    rw [hw] at hb
    exact absurd (hchars '<' (hb ▸ List.mem_cons_self)) (by decide)
  have hp : (isPlain cs && !isKeyword cs) = true := by
    unfold isPlain
    dsimp only
    rw [hw, h, hk]
    rfl
  unfold Sound
  rw [if_neg he, if_pos hp, hw]
  exact hk

/-- no keyword begins with the letters of a numbered id -/
lemma isKeyword_numbered {a b c : Char} (h : [a, b, c].map Char.toLower ∈ [['g', 'e', 'm'], ['g', 'r', 'o']])
    (cs : List Char) : isKeyword (a :: b :: c :: cs) = false := by
  rw [← Bool.not_eq_true]
  intro hk
  have hk : String.ofList ((a :: b :: c :: cs).map Char.toLower) ∈ keywords :=
    List.contains_iff_mem.mp hk
  have hd : ∀ k ∈ keywords, k.toList.take 3 ∉ [['g', 'e', 'm'], ['g', 'r', 'o']] := by
    unfold keywords
    simp only [List.forall_mem_cons]
    decide
  refine hd _ hk ?_
  rw [String.toList_ofList]
  exact h

lemma isName_numbered {name : List Char} (h : isName name = true) (n : Nat) :
    isName (name ++ n.repr.toList) = true := by
  have hdigits : n.repr.toList.all Token.isNameChar = true := by
    rw [List.all_eq_true, Nat.toList_repr]
    intro c hc
    unfold Token.isNameChar Char.isAlphanum
    rw [Text.isDigit_toDigits n c hc, Bool.or_true]
    rfl
  cases name with
  | nil => cases h
  | cons c cs =>
    obtain ⟨hc, hs⟩ := Bool.and_eq_true_iff.mp h
    refine Bool.and_eq_true_iff.mpr ⟨hc, ?_⟩
    show (cs ++ n.repr.toList).all Token.isNameChar = true
    rw [List.all_append, hs, hdigits]
    rfl

theorem sound_chosen {x : String} (h : Chosen x) : Sound x.toList := by
  rcases h with h | ⟨n, rfl | rfl⟩
  · have hd : ∀ x ∈ [Graph.fileId, "folder", "oval", "rectangle", "solid", "dashed"],
        isName x.toList = true ∧ isKeyword x.toList = false := by
      simp only [List.forall_mem_cons]
      decide
    exact sound_of_name (hd x h).1 (hd x h).2
  · unfold gemId
    rw [String.toList_append]
    have h : isName "gem".toList = true := by decide
    exact sound_of_name (isName_numbered h n) (isKeyword_numbered (by decide) _)
  · unfold groupId
    rw [String.toList_append]
    have h : isName "group".toList = true := by decide
    exact sound_of_name (isName_numbered h n) (isKeyword_numbered (by decide) _)

/-- so of the texts of a state's items only the labels matter -/
lemma sound_itemsOf_iff (g : Setting) (s : State) :
    (∀ i ∈ Graph.itemsOf g s, ∀ x ∈ textsOf i, Sound x.toList) ↔
      ∀ x ∈ labels (Graph.itemsOf g s), Sound x.toList := by
  constructor
  · intro h x hx
    obtain ⟨i, hi, hl⟩ := List.mem_filterMap.mp hx
    exact h i hi x (Graph.labelOf?_mem_textsOf hl)
  · intro h i hi x hx
    rcases Graph.framed_itemsOf g s i hi x hx with hl | hc
    · exact h x (List.mem_filterMap.mpr ⟨i, hi, hl⟩)
    · exact sound_chosen hc

/-! ## the whole text -/

/-- the text of a graph is a comment of one line, and behind it are its nodes and edges -/
structure Intact (comment : String) (items : List Item) : Prop where
  oneLine : '\n' ∉ comment.toList
  ids : ∀ x ∈ labels items, IsId (written x.toList)
  drawn : lex (body items) = some (lexemesOfAll items)
  whole : lex (render comment items).toList = some (lexemesOfAll items)

/-- a comment of one line is a gap -/
lemma lex_comment {cs : List Char} (h : '\n' ∉ cs) (items : List Item) :
    lex ("// ".toList ++ cs ++ '\n' :: body items) = lex (body items) := by
  have hc : ∀ c ∈ ' ' :: cs, (c != '\n') = true := by
    intro c hc
    rcases List.mem_cons.mp hc with rfl | hc
    · rfl
    · exact bne_iff_ne.mpr fun e => h (e ▸ hc)
  have hs : some? (· != '\n') (' ' :: cs ++ '\n' :: body items) = some (' ' :: cs, '\n' :: body items) :=
    row_some? hc fun c hc => by
      cases hc
      rfl
  have hl : lexeme? ('/' :: '/' :: (' ' :: cs ++ '\n' :: body items)) =
      some (⟨.gap, '/' :: '/' :: ' ' :: cs⟩, '\n' :: body items) := by
    refine lexeme?_of_gap ?_
    unfold gap comment Token.either
    rw [directive, Token.after_none (by decide)]
    dsimp only
    rw [Token.single_none (by decide)]
    dsimp only
    rw [Token.after_cons, if_pos rfl, Token.after_cons, if_pos rfl, hs]
    rfl
  have hd : ∀ c, (body items).head? = some c → afterBreak c := by
    rintro c ⟨⟩
    decide
  show lex ('/' :: '/' :: (' ' :: cs ++ '\n' :: body items)) = _
  rw [lex_of_gap hl, lex_of_gap (lexeme?_break hd)]

theorem intact_itemsOf_iff (g : Setting) (s : State) (comment : String) :
    Intact comment (Graph.itemsOf g s) ↔
      '\n' ∉ comment.toList ∧ ∀ x ∈ labels (Graph.itemsOf g s), Sound x.toList := by
  constructor
  · intro h
    exact ⟨h.oneLine, fun x hx => (isId_written_iff _).mp (h.ids x hx)⟩
  · rintro ⟨hc, hs⟩
    have hb := (lex_body _).mpr ((sound_itemsOf_iff g s).mpr hs)
    refine ⟨hc, fun x hx => (isId_written_iff _).mpr (hs x hx), hb, ?_⟩
    rw [toList_render, lex_comment hc, hb]

end Dot

namespace State

open Dot (IsId Intact Sound written)

/-- the comment in front of a graph -/
def dotComment (g : Setting) : String := "Dependencies for " ++ g.file

lemma break_mem_dotComment (g : Setting) : '\n' ∈ (dotComment g).toList ↔ '\n' ∈ g.file.toList := by
  have h : '\n' ∉ "Dependencies for ".toList := by decide
  unfold dotComment
  rw [String.toList_append, List.mem_append, or_iff_right h]

lemma dot_eq (g : Setting) {s : State} (hs : s.Drawable) :
    s.dot g = .ok (Dot.render (dotComment g) (Graph.itemsOf g s)) := by
  unfold dot
  rw [Graph.ofState_items hs]
  rfl

/-- The text of the graph of a state is a comment of one line and the nodes and edges of the graph, with
one ID for each label, exactly when there is no line break in the name of the file and each label is
sound.  A label is one ID exactly when it is sound, and so is all of what stands behind the comment
exactly when all of them are. -/
theorem dot_intact_iff (g : Setting) {s : State} (hs : s.Drawable) :
    ∃ items, Graph.ofState g s = .ok items ∧ s.dot g = .ok (Dot.render (dotComment g) items) ∧
      (Intact (dotComment g) items ↔
        '\n' ∉ g.file.toList ∧ ∀ x ∈ Graph.labels items, Sound x.toList) ∧
      (∀ x ∈ Graph.labels items, (IsId (written x.toList) ↔ Sound x.toList)) ∧
      (Dot.lex (Dot.body items) = some (Dot.lexemesOfAll items) ↔
        ∀ x ∈ Graph.labels items, Sound x.toList) := by
  refine ⟨_, Graph.ofState_items hs g, dot_eq g hs, ?_, fun x _ => Dot.isId_written_iff _, ?_⟩
  · rw [Dot.intact_itemsOf_iff, break_mem_dotComment]
  · rw [Dot.lex_body, Dot.sound_itemsOf_iff]

/-- names with a quote, with a pair of backslashes at the end, and in angle brackets -/
theorem dot_intact_iff_quoted :
    let g : Setting := ⟨⟨0, ["Gemfile"]⟩, [], none, ⟨none, .output ""⟩⟩
    let s : State := { State.start .standard with
      requests := [⟨.str "a\"b\\\\", []⟩]
      groups := [(.str "<<i>b</i>>", [⟨.str "c", [.str ">= 1"], []⟩])] }
    s.Drawable ∧ ∃ items, Graph.ofState g s = .ok items ∧ Intact (dotComment g) items ∧
      Graph.labels items = ["Gemfile", "a\"b\\\\", "<<i>b</i>>", "c\n>= 1"] := by
  intro g s
  have hs : s.Drawable := {
    groups := by simp [s, Table.keys]
    declared := by simp [s]
    requested := by simp [s] }
  obtain ⟨items, hi, -, h, -⟩ := dot_intact_iff g hs
  obtain rfl : items = Graph.itemsOf g s := Except.ok.inj (hi.symm.trans (Graph.ofState_items hs g))
  have hl : Graph.labels (Graph.itemsOf g s) = ["Gemfile", "a\"b\\\\", "<<i>b</i>>", "c\n>= 1"] := by
    decide +kernel
  refine ⟨hs, _, hi, h.mpr ⟨by decide, ?_⟩, hl⟩
  rw [hl]
  decide +kernel

/-- the label of a gem whose name ends in a backslash is no ID, and nothing behind it is read as it is
meant -/
theorem dot_broken :
    let g : Setting := ⟨⟨0, ["Gemfile"]⟩, [], none, ⟨none, .output ""⟩⟩
    let s : State := { State.start .standard with requests := [⟨.str "a\\", []⟩] }
    s.Drawable ∧ ∃ items, Graph.ofState g s = .ok items ∧ "a\\" ∈ Graph.labels items ∧
      ¬ IsId (written "a\\".toList) ∧ Dot.lex (Dot.body items) ≠ some (Dot.lexemesOfAll items) := by
  intro g s
  have hs : s.Drawable := {
    groups := nofun
    declared := nofun
    requested := by simp [s] }
  have hl : "a\\" ∈ Graph.labels (Graph.itemsOf g s) := by decide +kernel
  have hn : ¬ Sound "a\\".toList := by decide +kernel
  refine ⟨hs, _, Graph.ofState_items hs g, hl, fun h => hn ((Dot.isId_written_iff _).mp h), fun h => ?_⟩
  rw [Dot.lex_body, Dot.sound_itemsOf_iff] at h
  exact hn (h _ hl)

end State

end Gemfile
