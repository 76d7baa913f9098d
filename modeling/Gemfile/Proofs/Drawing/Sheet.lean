import Gemfile.Proofs.Drawing.Items
import Gemfile.Proofs.Except
import Gemfile.Proofs.Table

/-!
# Gems and groups with texts as names are drawn

* `sheet met items`        the sheet on which the gems met have their nodes
* `gemEdges_textual`         gems are drawn as `gemsDrawn` says
* `groupItems_textual`       groups are drawn as `groupsDrawn` says
* `labelled_textual`, `sorted?_texts`   names that are texts have labels and an order
* `groupsOf_names`           the groups drawn are those of the table, whatever their names are
-/

namespace Gemfile

namespace Graph

lemma sameKey_str_iff (s : String) (k : Scalar) : sameKey (.str s) k = true ↔ k = .str s := by
  rw [sameKey_iff]
  constructor
  · intro h
    cases k with
    | str t =>
      obtain rfl : s = t := Key.text.inj h
      rfl
    | nil => cases h
    | bool b => cases h
    | int n => cases h
    | float x => cases x <;> cases h
  · rintro rfl
    rfl

lemma among_str_iff (s : String) (ks : List Scalar) : among (.str s) ks = true ↔ .str s ∈ ks := by
  rw [among_iff]
  constructor
  · rintro ⟨k, hk, h⟩
    rw [sameKey_str_iff] at h
    exact h ▸ hk
  · intro h
    exact ⟨_, h, (sameKey_str_iff s _).mpr rfl⟩

theorem styleOf_str (without : List Scalar) (name : String) :
    styleOf without (.str name) = if .str name ∈ without then "dashed" else "solid" :=
  if_congr (among_str_iff name without) rfl rfl

/-! ## drawing -/

/-- a gem as it is handed over to be drawn -/
def textual (gem : Gem) : Scalar × Value := (.str gem.1, .str gem.2)

def textualGroup (group : String × List Gem) : Group := ⟨.str group.1, group.2.map textual⟩

/-- the nodes of gems, numbered from `k` on -/
def nodesFrom (k : Nat) (met : List Gem) : Table Scalar String :=
  (met.zipIdx k).map fun p => (.str p.1.1, gemId p.2)

def sheet (met : List Gem) (items : List Item) : Sheet := ⟨nodesFrom 0 met, items⟩

lemma get?_nodesFrom (k : Nat) (met : List Gem) (name : String) :
    Table.get? (.str name) (nodesFrom k met)
      = if name ∈ gemNames met then some (gemId (k + (gemNames met).idxOf name)) else none := by
  induction met generalizing k with
  | nil => rfl
  | cons gem met ih =>
    have h1 : nodesFrom k (gem :: met) = (.str gem.1, gemId k) :: nodesFrom (k + 1) met := rfl
    have h2 : gemNames (gem :: met) = gem.1 :: gemNames met := rfl
    rw [h1, Table.get?_cons, h2]
    by_cases hn : gem.1 = name
    · have h3 : sameKey (Scalar.str name) (Scalar.str gem.1) = true :=
        (sameKey_str_iff name _).mpr (congrArg Scalar.str hn)
      rw [if_pos h3, hn, if_pos List.mem_cons_self, List.idxOf_cons_self, Nat.add_zero]
    · have h3 : ¬sameKey (Scalar.str name) (Scalar.str gem.1) = true := by
        rw [sameKey_str_iff]
        exact fun h => hn (Scalar.str.inj h)
      rw [if_neg h3, ih, List.idxOf_cons_ne _ hn]
      by_cases hm : name ∈ gemNames met
      · rw [if_pos hm, if_pos (List.mem_cons_of_mem _ hm), Nat.add_assoc,
          Nat.add_comm 1]
      · have h4 : name ∉ gem.1 :: gemNames met := by
          rw [List.mem_cons, not_or]
          exact ⟨fun h => hn h.symm, hm⟩
        rw [if_neg hm, if_neg h4]

lemma get?_sheet (met : List Gem) (items : List Item) (name : String) :
    Table.get? (.str name) (sheet met items).gems
      = if name ∈ gemNames met then some (nodeOf met name) else none := by
  show Table.get? (.str name) (nodesFrom 0 met) = _
  rw [get?_nodesFrom, Nat.zero_add]
  rfl

lemma length_nodes (met : List Gem) (items : List Item) :
    (sheet met items).gems.length = met.length := by
  show (nodesFrom 0 met).length = met.length
  rw [nodesFrom, List.length_map, List.length_zipIdx]

lemma keys_nodesFrom (k : Nat) (met : List Gem) :
    (nodesFrom k met).keys = (gemNames met).map Scalar.str := by
  induction met generalizing k with
  | nil => rfl
  | cons gem met ih => exact congrArg (Scalar.str gem.1 :: ·) (ih (k + 1))

lemma put_nodes {met : List Gem} {gem : Gem} (h : gem.1 ∉ gemNames met) :
    Table.put (.str gem.1) (gemId met.length) (nodesFrom 0 met) = nodesFrom 0 (met ++ [gem]) := by
  have h1 : among (.str gem.1) (nodesFrom 0 met).keys = false := by
    rw [← Bool.not_eq_true, among_str_iff, keys_nodesFrom, List.mem_map]
    rintro ⟨n, hn, he⟩
    exact h (Scalar.str.inj he ▸ hn)
  rw [Table.put_of_new h1, nodesFrom, nodesFrom, List.zipIdx_append, List.map_append, Nat.zero_add]
  rfl

lemma gemNode_textual (gem : Gem) (met : List Gem) (items : List Item) :
    gemNode (.str gem.1) (.str gem.2) (sheet met items)
      = .ok (nodeOf (meet met gem) gem.1, sheet (meet met gem) (items ++ newBox met gem)) := by
  unfold gemNode
  rw [get?_sheet]
  by_cases h : gem.1 ∈ gemNames met
  · rw [if_pos h, meet_of_mem h, newBox, if_pos h, List.append_nil]
  · rw [if_neg h, meet_of_new h, newBox, if_neg h, nodeOf_new h, length_nodes]
    show Except.ok (gemId met.length, Sheet.mk
      (Table.put (.str gem.1) (gemId met.length) (nodesFrom 0 met)) (items ++ [box gem met.length])) = _
    rw [put_nodes h]
    rfl

lemma gemEdge_textual (source : String) (look : Option String) (gem : Gem) (met : List Gem)
    (items : List Item) :
    gemEdge source look (.str gem.1) (.str gem.2) (sheet met items)
      = .ok (sheet (meet met gem) (items ++ gemDrawn source look met gem)) := by
  unfold gemEdge
  rw [gemNode_textual, ok_bind, gemDrawn, ← List.append_assoc]
  rfl

theorem gemEdges_textual (source : String) (look : Option String) (gems met : List Gem)
    (items : List Item) :
    gemEdges source look (gems.map textual) (sheet met items)
      = .ok (sheet (meetAll met gems) (items ++ gemsDrawn source look met gems)) := by
  induction gems generalizing met items with
  | nil =>
    rw [gemsDrawn, List.append_nil]
    rfl
  | cons gem gems ih =>
    show (gemEdge source look (.str gem.1) (.str gem.2) (sheet met items) >>= fun t =>
      gemEdges source look (gems.map textual) t) = _
    rw [gemEdge_textual, ok_bind, ih, gemsDrawn, List.append_assoc]
    rfl

theorem groupItems_textual (without : List Scalar) (i : Nat) (groups : List (String × List Gem))
    (met : List Gem) (items : List Item) :
    groupItems without i (groups.map textualGroup) (sheet met items)
      = .ok (sheet (meetAll met (gemsOf groups)) (items ++ groupsDrawn without met i groups)) := by
  induction groups generalizing i met items with
  | nil =>
    rw [groupsDrawn, List.append_nil]
    rfl
  | cons group groups ih =>
    show (gemEdges (groupId i) (some (styleOf without (.str group.1))) (group.2.map textual)
      (sheet met (items ++ [oval without group.1 i] ++ [spoke i])) >>= fun t =>
        groupItems without (i + 1) (groups.map textualGroup) t) = _
    rw [gemEdges_textual, ok_bind, ih, gemsOf_cons, meetAll_append, groupsDrawn, groupDrawn]
    simp only [List.append_assoc, List.cons_append, List.nil_append]

/-! ## names and labels -/

/-- a gem with its requirements as it is drawn: name and label -/
def gemOf (p : Value × List Value) : Gem := (p.1.text, (gemLabel p.1 p.2).text)

lemma gemLabel_str (name : String) (requirements : List Value) :
    gemLabel (.str name) requirements = .str (gemLabel (.str name) requirements).text := by
  unfold gemLabel
  split
  · rfl
  · rfl

theorem labelled_textual {ps : List (Value × List Value)} (h : ∀ p ∈ ps, ∃ n, p.1 = .str n) :
    labelled ps = .ok ((ps.map gemOf).map textual) := by
  induction ps with
  | nil => rfl
  | cons p ps ih =>
    obtain ⟨name, requirements⟩ := p
    obtain ⟨n, rfl⟩ : ∃ n, name = .str n := h _ List.mem_cons_self
    show (labelled ps >>= fun rest =>
      .ok ((Scalar.str n, gemLabel (.str n) requirements) :: rest)) = _
    rw [ih fun p hp => h p (List.mem_cons_of_mem _ hp), ok_bind, gemLabel_str]
    rfl

lemma sortable_texts (ts : List String) : sortable (ts.map .str) = true := by
  cases ts with
  | nil => rfl
  | cons t ts =>
    cases ts with
    | nil => rfl
    | cons u us =>
      show (true && ((u :: us).map Scalar.str).all fun m =>
        decide (m.key.kind? = some .text)) = true
      rw [Bool.true_and, List.all_map, List.all_eq_true]
      intro s _
      rfl

theorem sorted?_texts (ts : List String) :
    sorted? (ts.map .str) = some ((ts.mergeSort fun s t => decide (s ≤ t)).map .str) := by
  have h1 : (ts.map Scalar.str).any Scalar.isNan = false := by
    rw [List.any_map, List.any_eq_false]
    intro s _ hs
    cases hs
  have h2 : (ts.mergeSort fun s t => decide (s ≤ t)).map Scalar.str
      = (ts.map Scalar.str).mergeSort fun a b => a.key.le b.key :=
    List.map_mergeSort fun _ _ _ _ => rfl
  unfold sorted?
  rw [sortable_texts, h1, h2]
  rfl

/-! ## the groups of a table -/

lemma map_name_of_mapM {f : Scalar → Except Fault Group}
    (hf : ∀ name group, f name = .ok group → group.name = name) {names : List Scalar}
    {groups : List Group} (h : names.mapM f = .ok groups) : groups.map Group.name = names := by
  induction names generalizing groups with
  | nil =>
    obtain rfl := Except.ok.inj h
    rfl
  | cons name names ih =>
    rw [List.mapM_cons] at h
    obtain ⟨group, hgroup, h⟩ := bind_eq_ok.mp h
    obtain ⟨rest, hrest, h⟩ := bind_eq_ok.mp h
    obtain rfl := Except.ok.inj h
    rw [List.map_cons, hf name group hgroup, ih hrest]

/-- each group of a table once, whatever the names are -/
theorem groupsOf_names {t : Table Scalar (List Declaration)} {groups : List Group}
    (h : groupsOf t = .ok groups) : (groups.map Group.name).Perm t.keys := by
  unfold groupsOf at h
  cases hn : sorted? t.keys with
  | none =>
    rw [hn] at h
    cases h
  | some names =>
    rw [hn] at h
    have named : groups.map Group.name = names := by
      refine map_name_of_mapM (fun name group hgroup => ?_) h
      obtain ⟨gems, -, hgroup⟩ := bind_eq_ok.mp hgroup
      obtain rfl := Except.ok.inj hgroup
      rfl
    rw [named]
    exact sorted?_perm hn

end Graph

end Gemfile
