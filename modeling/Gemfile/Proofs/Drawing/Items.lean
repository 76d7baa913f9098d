import Gemfile.Proofs.Drawing.Grown
import Gemfile.Proofs.Text

/-!
# The items of some gems and groups

A gem gets its node when it is met for the first time; its number is the number of gems met before.

* `meet`, `meetAll`                  the gems met so far, with another one, with some more
* `nodeOf met name`                  the node of a gem that was met
* `gemDrawn`, `gemsDrawn`            the items of a gem, of some gems in order
* `groupsDrawn`                      the items of some groups in order
* `boxes_groupsDrawn`                the nodes of gems among them
* `edgesFrom_groupsDrawn`            the edges of each group
* `Sketch met k items`               `items` are grown, with the nodes of the file, of the gems met and
                                     of `k` groups
-/

namespace Gemfile

namespace Graph

/-! ## ids -/

lemma repr_injective {m n : Nat} (h : m.repr = n.repr) : m = n := by
  have h1 : Nat.toDigits 10 m = Nat.toDigits 10 n := by
    rw [← Nat.toList_repr, h, Nat.toList_repr]
  rw [← Text.numeral_toDigits m, h1, Text.numeral_toDigits]

lemma gemId_inj {m n : Nat} (h : gemId m = gemId n) : m = n :=
  repr_injective ((String.append_right_inj "gem").mp h)

lemma groupId_inj {m n : Nat} (h : groupId m = groupId n) : m = n :=
  repr_injective ((String.append_right_inj "group").mp h)

lemma gemId_ne_fileId (n : Nat) : gemId n ≠ fileId := by
  intro h
  simpa [gemId, fileId] using congrArg String.toList h

lemma groupId_ne_fileId (n : Nat) : groupId n ≠ fileId := by
  intro h
  simpa [groupId, fileId] using congrArg String.toList h

lemma groupId_ne_gemId (m n : Nat) : groupId m ≠ gemId n := by
  intro h
  simpa [groupId, gemId] using congrArg String.toList h

/-! ## the gems that were met -/

/-- the name of a gem and its label -/
abbrev Gem := String × String

def gemNames (gems : List Gem) : List String := gems.map Prod.fst

def meet (met : List Gem) (gem : Gem) : List Gem :=
  if gem.1 ∈ gemNames met then met else met ++ [gem]

def meetAll (met gems : List Gem) : List Gem := gems.foldl meet met

def nodeOf (met : List Gem) (name : String) : String := gemId ((gemNames met).idxOf name)

section
variable {met met' gems : List Gem} {gem : Gem} {name : String}

lemma meet_of_mem (h : gem.1 ∈ gemNames met) : meet met gem = met := if_pos h

lemma meet_of_new (h : gem.1 ∉ gemNames met) : meet met gem = met ++ [gem] := if_neg h

lemma meetAll_cons (met : List Gem) (gem : Gem) (gems : List Gem) :
    meetAll met (gem :: gems) = meetAll (meet met gem) gems := rfl

lemma meetAll_append (met a b : List Gem) : meetAll met (a ++ b) = meetAll (meetAll met a) b :=
  List.foldl_append

lemma length_gemNames (met : List Gem) : (gemNames met).length = met.length := List.length_map _

lemma gemNames_append (a b : List Gem) : gemNames (a ++ b) = gemNames a ++ gemNames b :=
  List.map_append

lemma prefix_meet (met : List Gem) (gem : Gem) : met <+: meet met gem := by
  by_cases h : gem.1 ∈ gemNames met
  · exact ⟨[], by rw [meet_of_mem h, List.append_nil]⟩
  · rw [meet_of_new h]
    exact List.prefix_append met [gem]

lemma prefix_meetAll (met gems : List Gem) : met <+: meetAll met gems := by
  induction gems generalizing met with
  | nil => exact List.prefix_refl met
  | cons gem gems ih => exact (prefix_meet met gem).trans (ih (meet met gem))

lemma mem_gemNames_meet : name ∈ gemNames (meet met gem) ↔ name ∈ gemNames met ∨ name = gem.1 := by
  by_cases h : gem.1 ∈ gemNames met
  · rw [meet_of_mem h]
    constructor
    · exact .inl
    · rintro (hn | rfl)
      · exact hn
      · exact h
  · rw [meet_of_new h, gemNames_append, List.mem_append]
    exact or_congr_right List.mem_singleton

lemma mem_gemNames_meetAll :
    name ∈ gemNames (meetAll met gems) ↔ name ∈ gemNames met ∨ name ∈ gemNames gems := by
  induction gems generalizing met with
  | nil => exact (or_iff_left List.not_mem_nil).symm
  | cons gem gems ih =>
    rw [meetAll_cons, ih, mem_gemNames_meet, or_assoc]
    exact or_congr_right List.mem_cons.symm

lemma mem_of_mem_meetAll (h : gem ∈ meetAll met gems) : gem ∈ met ∨ gem ∈ gems := by
  induction gems generalizing met with
  | nil => exact .inl h
  | cons g gems ih =>
    rcases ih h with h | h
    · by_cases hg : g.1 ∈ gemNames met
      · rw [meet_of_mem hg] at h
        exact .inl h
      · rw [meet_of_new hg, List.mem_append, List.mem_singleton] at h
        exact h.imp_right fun e => List.mem_cons.mpr (.inl e)
    · exact .inr (List.mem_cons_of_mem g h)

lemma nodup_meetAll (h : (gemNames met).Nodup) (gems : List Gem) :
    (gemNames (meetAll met gems)).Nodup := by
  induction gems generalizing met with
  | nil => exact h
  | cons gem gems ih =>
    refine ih ?_
    by_cases hg : gem.1 ∈ gemNames met
    · rw [meet_of_mem hg]
      exact h
    · rw [meet_of_new hg, gemNames_append]
      refine List.nodup_append.mpr ⟨h, List.nodup_singleton _, ?_⟩
      rintro a ha b hb rfl
      exact hg (List.mem_singleton.mp hb ▸ ha)

lemma nodeOf_of_prefix (h : met <+: met') (hn : name ∈ gemNames met) :
    nodeOf met' name = nodeOf met name := by
  obtain ⟨more, rfl⟩ := h
  rw [nodeOf, gemNames_append, List.idxOf_append_of_mem hn]
  rfl

lemma nodeOf_new (h : gem.1 ∉ gemNames met) : nodeOf (met ++ [gem]) gem.1 = gemId met.length := by
  have h1 : [gem.1].idxOf gem.1 = 0 := List.idxOf_cons_self
  show gemId ((gemNames (met ++ [gem])).idxOf gem.1) = gemId met.length
  rw [gemNames_append, List.idxOf_append, if_neg h]
  show gemId ([gem.1].idxOf gem.1 + (gemNames met).length) = gemId met.length
  rw [h1, Nat.zero_add, length_gemNames]

end

/-! ## what is drawn -/

def box (gem : Gem) (i : Nat) : Item := .node (gemId i) (some gem.2) "rectangle" none

/-- the nodes of the gems that were met -/
def boxes (met : List Gem) : List Item := met.zipIdx.map fun p => box p.1 p.2

/-- the node of a gem, if it has none yet -/
def newBox (met : List Gem) (gem : Gem) : List Item :=
  if gem.1 ∈ gemNames met then [] else [box gem met.length]

def gemDrawn (source : String) (look : Option String) (met : List Gem) (gem : Gem) : List Item :=
  newBox met gem ++ [.edge source (nodeOf (meet met gem) gem.1) look]

def gemsDrawn (source : String) (look : Option String) : List Gem → List Gem → List Item
  | _, [] => []
  | met, gem :: gems => gemDrawn source look met gem ++ gemsDrawn source look (meet met gem) gems

def oval (without : List Scalar) (name : String) (i : Nat) : Item :=
  .node (groupId i) (some name) "oval" (some (styleOf without (.str name)))

def spoke (i : Nat) : Item := .edge fileId (groupId i) none

/-- the items of a group's declarations -/
def groupDrawn (without : List Scalar) (met : List Gem) (i : Nat) (group : String × List Gem) :
    List Item :=
  gemsDrawn (groupId i) (some (styleOf without (.str group.1))) met group.2

def groupsDrawn (without : List Scalar) :
    List Gem → Nat → List (String × List Gem) → List Item
  | _, _, [] => []
  | met, i, group :: groups =>
    [oval without group.1 i, spoke i] ++ groupDrawn without met i group ++
      groupsDrawn without (meetAll met group.2) (i + 1) groups

/-- the gems of some groups -/
def gemsOf (groups : List (String × List Gem)) : List Gem := groups.flatMap Prod.snd

lemma gemsOf_cons (group : String × List Gem) (groups : List (String × List Gem)) :
    gemsOf (group :: groups) = group.2 ++ gemsOf groups := List.flatMap_cons

/-! ## the nodes among it -/

section
variable (source : String) (look : Option String) (without : List Scalar) (met : List Gem)

lemma boxes_meet (gem : Gem) : boxes (meet met gem) = boxes met ++ newBox met gem := by
  by_cases h : gem.1 ∈ gemNames met
  · rw [meet_of_mem h, newBox, if_pos h, List.append_nil]
  · have h1 : [gem].zipIdx (0 + met.length) = [(gem, met.length)] := by
      rw [Nat.zero_add]
      rfl
    rw [meet_of_new h, newBox, if_neg h, boxes, List.zipIdx_append, List.map_append, h1]
    rfl

lemma nodesOf_newBox (gem : Gem) : nodesOf "rectangle" (newBox met gem) = newBox met gem := by
  unfold newBox
  split
  · rfl
  · exact nodesOf_node ..

lemma nodesOf_newBox_of_ne (gem : Gem) {shape : String} (h : "rectangle" ≠ shape) :
    nodesOf shape (newBox met gem) = [] := by
  unfold newBox
  split
  · rfl
  · exact nodesOf_node_of_ne _ _ _ _ h

lemma edgesFrom_newBox (gem : Gem) (a : String) : edgesFrom a (newBox met gem) = [] := by
  unfold newBox
  split
  · rfl
  · rfl

lemma boxes_gemsDrawn (gems : List Gem) :
    boxes (meetAll met gems) = boxes met ++ nodesOf "rectangle" (gemsDrawn source look met gems) := by
  induction gems generalizing met with
  | nil => exact (List.append_nil _).symm
  | cons gem gems ih =>
    rw [meetAll_cons, ih, boxes_meet, gemsDrawn, gemDrawn, nodesOf_append, nodesOf_append,
      nodesOf_newBox, nodesOf_edge, List.append_nil, List.append_assoc]

lemma nodesOf_gemsDrawn (gems : List Gem) {shape : String} (h : "rectangle" ≠ shape) :
    nodesOf shape (gemsDrawn source look met gems) = [] := by
  induction gems generalizing met with
  | nil => rfl
  | cons gem gems ih =>
    rw [gemsDrawn, gemDrawn, nodesOf_append, nodesOf_append, nodesOf_newBox_of_ne met gem h,
      nodesOf_edge, ih]
    rfl

theorem boxes_groupsDrawn (i : Nat) (groups : List (String × List Gem)) :
    boxes (meetAll met (gemsOf groups))
      = boxes met ++ nodesOf "rectangle" (groupsDrawn without met i groups) := by
  induction groups generalizing met i with
  | nil => exact (List.append_nil _).symm
  | cons group groups ih =>
    have h1 : nodesOf "rectangle" [oval without group.1 i, spoke i] = [] := rfl
    rw [gemsOf_cons, meetAll_append, ih _ (i + 1), groupsDrawn, nodesOf_append, nodesOf_append, h1,
      List.nil_append, groupDrawn, ← List.append_assoc, ← boxes_gemsDrawn]

theorem ovals_groupsDrawn (i : Nat) (groups : List (String × List Gem)) :
    nodesOf "oval" (groupsDrawn without met i groups)
      = (groups.zipIdx i).map fun p => oval without p.1.1 p.2 := by
  induction groups generalizing met i with
  | nil => rfl
  | cons group groups ih =>
    have h1 : nodesOf "oval" [oval without group.1 i, spoke i] = [oval without group.1 i] := by
      rw [nodesOf_cons, oval, nodesOf_node]
      rfl
    rw [groupsDrawn, nodesOf_append, nodesOf_append, h1, groupDrawn,
      nodesOf_gemsDrawn _ _ _ _ (by decide), ih]
    rfl

lemma nodesOf_groupsDrawn (i : Nat) (groups : List (String × List Gem)) {shape : String}
    (h : "rectangle" ≠ shape) (ho : "oval" ≠ shape) :
    nodesOf shape (groupsDrawn without met i groups) = [] := by
  induction groups generalizing met i with
  | nil => rfl
  | cons group groups ih =>
    have h1 : nodesOf shape [oval without group.1 i, spoke i] = [] :=
      nodesOf_node_of_ne _ _ _ _ ho
    rw [groupsDrawn, nodesOf_append, nodesOf_append, h1, groupDrawn, nodesOf_gemsDrawn _ _ _ _ h, ih]
    rfl

end

/-! ## the edges among it -/

section
variable {source : String} {look : Option String} {without : List Scalar} {met final : List Gem}

/-- the edges lead to the nodes that the gems have in the end -/
theorem edgesFrom_gemsDrawn {gems : List Gem} (h : meetAll met gems <+: final) :
    edgesFrom source (gemsDrawn source look met gems)
      = gems.map fun gem => .edge source (nodeOf final gem.1) look := by
  induction gems generalizing met with
  | nil => rfl
  | cons gem gems ih =>
    have h1 : meet met gem <+: final := (prefix_meetAll (meet met gem) gems).trans h
    have h2 : nodeOf final gem.1 = nodeOf (meet met gem) gem.1 :=
      nodeOf_of_prefix h1 (mem_gemNames_meet.mpr (.inr rfl))
    rw [gemsDrawn, gemDrawn, edgesFrom_append, edgesFrom_append, edgesFrom_newBox, edgesFrom_edge,
      ih h, ← h2]
    rfl

lemma edgesFrom_gemsDrawn_of_ne {a : String} (h : source ≠ a) (gems : List Gem) :
    edgesFrom a (gemsDrawn source look met gems) = [] := by
  induction gems generalizing met with
  | nil => rfl
  | cons gem gems ih =>
    rw [gemsDrawn, gemDrawn, edgesFrom_append, edgesFrom_append, edgesFrom_newBox,
      edgesFrom_edge_of_ne _ _ _ h, ih]
    rfl

lemma edgesFrom_head_of_ne {a : String} (h : fileId ≠ a) (name : String) (i : Nat) :
    edgesFrom a [oval without name i, spoke i] = [] :=
  edgesFrom_edge_of_ne none a (groupId i) h

lemma edgesFrom_groupsDrawn_of_ne {a : String} {i : Nat} (hf : fileId ≠ a)
    (hg : ∀ j, i ≤ j → groupId j ≠ a) (groups : List (String × List Gem)) :
    edgesFrom a (groupsDrawn without met i groups) = [] := by
  induction groups generalizing met i with
  | nil => rfl
  | cons group groups ih =>
    rw [groupsDrawn, edgesFrom_append, edgesFrom_append, edgesFrom_head_of_ne hf, groupDrawn,
      edgesFrom_gemsDrawn_of_ne (hg i (le_refl i)), ih fun j hj => hg j (by omega)]
    rfl

theorem edgesFrom_file (i : Nat) (groups : List (String × List Gem)) :
    edgesFrom fileId (groupsDrawn without met i groups)
      = (groups.zipIdx i).map fun p => spoke p.2 := by
  induction groups generalizing met i with
  | nil => rfl
  | cons group groups ih =>
    have h1 : edgesFrom fileId [oval without group.1 i, spoke i] = [spoke i] := rfl
    rw [groupsDrawn, edgesFrom_append, edgesFrom_append, h1, groupDrawn,
      edgesFrom_gemsDrawn_of_ne (groupId_ne_fileId i), ih]
    rfl

theorem edgesFrom_groupsDrawn {i j : Nat} {group : String × List Gem}
    {groups : List (String × List Gem)} (hj : (group, j) ∈ groups.zipIdx i)
    (h : meetAll met (gemsOf groups) <+: final) :
    edgesFrom (groupId j) (groupsDrawn without met i groups)
      = group.2.map fun gem =>
          .edge (groupId j) (nodeOf final gem.1) (some (styleOf without (.str group.1))) := by
  induction groups generalizing met i with
  | nil => cases hj
  | cons first groups ih =>
    rw [gemsOf_cons, meetAll_append] at h
    rw [groupsDrawn, edgesFrom_append, edgesFrom_append,
      edgesFrom_head_of_ne (groupId_ne_fileId j).symm, groupDrawn, List.nil_append]
    rw [List.zipIdx_cons] at hj
    rcases List.mem_cons.mp hj with hj | hj
    · obtain ⟨rfl, rfl⟩ := Prod.mk.inj hj
      have h1 : ∀ k, j + 1 ≤ k → groupId k ≠ groupId j := by
        intro k hk he
        have := groupId_inj he
        omega
      rw [edgesFrom_gemsDrawn ((prefix_meetAll _ _).trans h),
        edgesFrom_groupsDrawn_of_ne (groupId_ne_fileId j).symm h1, List.append_nil]
    · -- the group stands further down, so its number is greater
      have h1 : groupId i ≠ groupId j := by
        intro he
        have h2 := groupId_inj he
        have h3 := List.le_snd_of_mem_zipIdx hj
        omega
      rw [edgesFrom_gemsDrawn_of_ne h1, List.nil_append]
      exact ih hj h

end

/-! ## growing -/

lemma exists_lt_succ (f : Nat → String) (n : Nat) (id : String) :
    (∃ i < n + 1, id = f i) ↔ (∃ i < n, id = f i) ∨ id = f n := by
  simp only [Nat.lt_succ_iff_lt_or_eq, or_and_right, exists_or, exists_eq_left]

structure Sketch (met : List Gem) (k : Nat) (items : List Item) : Prop where
  grown : Grown fileId items
  mem_ids : ∀ id, id ∈ ids items ↔
    id = fileId ∨ (∃ i < met.length, id = gemId i) ∨ ∃ i < k, id = groupId i

namespace Sketch

variable {met : List Gem} {k : Nat} {items : List Item}

lemma start (label : String) : Sketch [] 0 [.node fileId (some label) "folder" none] := by
  refine ⟨.root _ _ _, ?_⟩
  intro id
  rw [ids_node, List.mem_singleton]
  simp

lemma nodeOf_mem (h : Sketch met k items) {name : String} (hn : name ∈ gemNames met) :
    nodeOf met name ∈ ids items := by
  refine (h.mem_ids _).mpr (.inr (.inl ⟨_, ?_, rfl⟩))
  rw [← length_gemNames]
  exact List.idxOf_lt_length_of_mem hn

lemma gemId_new (h : Sketch met k items) : gemId met.length ∉ ids items := by
  intro hm
  rcases (h.mem_ids _).mp hm with he | ⟨i, hi, he⟩ | ⟨i, hi, he⟩
  · exact gemId_ne_fileId _ he
  · have := gemId_inj he
    omega
  · exact groupId_ne_gemId _ _ he.symm

lemma groupId_new (h : Sketch met k items) : groupId k ∉ ids items := by
  intro hm
  rcases (h.mem_ids _).mp hm with he | ⟨i, hi, he⟩ | ⟨i, hi, he⟩
  · exact groupId_ne_fileId _ he
  · exact groupId_ne_gemId _ _ he
  · have := groupId_inj he
    omega

theorem gem (h : Sketch met k items) {source : String} (hs : source ∈ ids items)
    (look : Option String) (gem : Gem) :
    Sketch (meet met gem) k (items ++ gemDrawn source look met gem) := by
  by_cases hg : gem.1 ∈ gemNames met
  · have h1 : gemDrawn source look met gem = [.edge source (nodeOf met gem.1) look] := by
      rw [gemDrawn, newBox, if_pos hg, meet_of_mem hg, List.nil_append]
    rw [h1, meet_of_mem hg]
    refine ⟨.link look h.grown hs (h.nodeOf_mem hg), ?_⟩
    intro id
    rw [ids_append, ids_edge, List.append_nil]
    exact h.mem_ids id
  · have h1 : gemDrawn source look met gem
        = [box gem met.length, .edge source (gemId met.length) look] := by
      rw [gemDrawn, newBox, if_neg hg, meet_of_new hg, nodeOf_new hg, List.singleton_append]
    rw [h1, meet_of_new hg]
    refine ⟨.branch _ _ _ look h.grown hs h.gemId_new, ?_⟩
    intro id
    have h2 : ids (items ++ [box gem met.length, .edge source (gemId met.length) look])
        = ids items ++ [gemId met.length] := ids_append _ _
    rw [h2, List.mem_append, List.mem_singleton, h.mem_ids id, List.length_append,
      List.length_singleton, exists_lt_succ]
    simp only [or_assoc, or_left_comm, or_comm]

theorem gems (h : Sketch met k items) {source : String} (hs : source ∈ ids items)
    (look : Option String) (gems : List Gem) :
    Sketch (meetAll met gems) k (items ++ gemsDrawn source look met gems) := by
  induction gems generalizing met items with
  | nil =>
    rw [gemsDrawn, List.append_nil]
    exact h
  | cons gem gems ih =>
    have h1 : source ∈ ids (items ++ gemDrawn source look met gem) := by
      rw [ids_append]
      exact List.mem_append_left _ hs
    rw [gemsDrawn, ← List.append_assoc, meetAll_cons]
    exact ih (h.gem hs look gem) h1

lemma branch (h : Sketch met k items) (without : List Scalar) (name : String) :
    Sketch met (k + 1) (items ++ [oval without name k, spoke k]) := by
  have h1 : fileId ∈ ids items := (h.mem_ids _).mpr (.inl rfl)
  refine ⟨.branch _ _ _ none h.grown h1 h.groupId_new, ?_⟩
  intro id
  have h2 : ids (items ++ [oval without name k, spoke k]) = ids items ++ [groupId k] :=
    ids_append _ _
  rw [h2, List.mem_append, List.mem_singleton, h.mem_ids id, exists_lt_succ, or_assoc, or_assoc]

theorem groups (h : Sketch met k items) (without : List Scalar)
    (groups : List (String × List Gem)) :
    Sketch (meetAll met (gemsOf groups)) (k + groups.length)
      (items ++ groupsDrawn without met k groups) := by
  induction groups generalizing met k items with
  | nil =>
    rw [groupsDrawn, List.append_nil]
    exact h
  | cons group groups ih =>
    have h1 := h.branch without group.1
    have h2 : groupId k ∈ ids (items ++ [oval without group.1 k, spoke k]) :=
      (h1.mem_ids _).mpr (.inr (.inr ⟨k, Nat.lt_succ_self k, rfl⟩))
    have h3 := ih (h1.gems h2 (some (styleOf without (.str group.1))) group.2)
    rw [gemsOf_cons, meetAll_append, groupsDrawn, groupDrawn, List.length_cons,
      Nat.add_comm groups.length, ← Nat.add_assoc, ← List.append_assoc, ← List.append_assoc]
    exact h3

end Sketch

end Graph

end Gemfile
