import Gemfile.Proofs.Drawing.Sheet
import Mathlib.Data.List.Sort
import Mathlib.Data.String.Basic

/-!
# The graph of a state is well formed and complete

* `State.Drawable`       the names of groups and gems are texts
* `State.declarations`, `State.recorded`   the declarations of a group, and of all groups
* `State.ungrouped`      the requests of gems that no group declares
* `Graph.ofState_items`  the items of a drawable state
* `Graph.Drawing`        what a graph has to show
* `Graph.ofState_drawing`   a drawable state has a graph, and the graph shows it
-/

namespace Gemfile

namespace State

structure Drawable (s : State) : Prop where
  groups : ∀ k ∈ s.groups.keys, ∃ n, k = .str n
  declared : ∀ e ∈ s.groups, ∀ d ∈ e.2, ∃ n, d.name = .str n
  requested : ∀ d ∈ s.requests, ∃ n, d.name = .str n

def declarations (s : State) (group : Scalar) : List Declaration :=
  (Table.get? group s.groups).getD []

def recorded (s : State) : List Declaration := s.groups.keys.flatMap s.declarations

def ungrouped (s : State) : List Dependency :=
  s.requests.filter fun d => decide (∀ e ∈ s.recorded, e.name ≠ d.name)

end State

namespace Graph

/-! ## the items of a state -/

/-- a declaration as the gem that is drawn for it -/
def declaredGem (d : Declaration) : Gem := gemOf (declared d)

def requestedGem (d : Dependency) : Gem := gemOf (requested d)

/-- the names of the groups, in order -/
def groupNames (s : State) : List String :=
  (s.groups.keys.map Scalar.text).mergeSort fun a b => decide (a ≤ b)

def groupOf (s : State) (name : String) : String × List Gem :=
  (name, (s.declarations (.str name)).map declaredGem)

def groups (s : State) : List (String × List Gem) := (groupNames s).map (groupOf s)

def ungroupedGems (s : State) : List Gem := s.ungrouped.map requestedGem

/-- all gems that are drawn -/
def allGems (s : State) : List Gem := meetAll (meetAll [] (ungroupedGems s)) (gemsOf (groups s))

def fileNode (g : Setting) : Item := .node fileId (some g.file) "folder" none

def itemsOf (g : Setting) (s : State) : List Item :=
  [fileNode g] ++ gemsDrawn fileId none [] (ungroupedGems s) ++
    groupsDrawn g.without (meetAll [] (ungroupedGems s)) 0 (groups s)

section
variable {s : State} (hs : s.Drawable)
include hs

lemma declarations_text {group : Scalar} {d : Declaration} (hd : d ∈ s.declarations group) :
    ∃ n, d.name = .str n := by
  rw [State.declarations] at hd
  cases hget : Table.get? group s.groups with
  | none =>
    rw [hget] at hd
    cases hd
  | some ds =>
    obtain ⟨e, he, rfl⟩ := Table.mem_of_get? hget
    rw [hget] at hd
    exact hs.declared e he d hd

lemma keys_text : (s.groups.keys.map Scalar.text).map Scalar.str = s.groups.keys := by
  have h1 : ∀ k ∈ s.groups.keys, (Scalar.str ∘ Scalar.text) k = id k := by
    intro k hk
    obtain ⟨n, rfl⟩ := hs.groups k hk
    rfl
  rw [List.map_map, List.map_congr_left h1, List.map_id]

lemma groups_textual (names : List String) :
    ((names.map Scalar.str).mapM fun n => do
      let gems ← labelled (((Table.get? n s.groups).getD []).map declared)
      return (⟨n, gems⟩ : Group)) =
    (.ok ((names.map (groupOf s)).map textualGroup) : Except Fault (List Group)) := by
  induction names with
  | nil => rfl
  | cons name names ih =>
    have h1 : ∀ p ∈ (s.declarations (.str name)).map declared, ∃ n, p.1 = .str n := by
      intro p hp
      obtain ⟨d, hd, rfl⟩ := List.mem_map.mp hp
      exact declarations_text hs hd
    have h2 : labelled ((s.declarations (.str name)).map declared)
        = .ok ((groupOf s name).2.map textual) := by
      have h3 : ((s.declarations (.str name)).map declared).map gemOf = (groupOf s name).2 :=
        List.map_map
      rw [labelled_textual h1, h3]
    rw [List.map_cons, List.mapM_cons, ih]
    show ((labelled ((s.declarations (.str name)).map declared) >>= _) >>= _) = _
    rw [h2]
    rfl

lemma groupsOf_textual : groupsOf s.groups = .ok ((groups s).map textualGroup) := by
  unfold groupsOf
  rw [← keys_text hs, sorted?_texts]
  exact groups_textual hs (groupNames s)

lemma groupNames_perm : ((groupNames s).map Scalar.str).Perm s.groups.keys := by
  have h := groupsOf_names (groupsOf_textual hs)
  have names : ((groups s).map textualGroup).map Group.name = (groupNames s).map Scalar.str := by
    rw [groups, List.map_map, List.map_map]
    rfl
  rwa [names] at h

lemma mem_recorded {d : Declaration} :
    d ∈ s.recorded ↔ ∃ n ∈ groupNames s, d ∈ s.declarations (.str n) := by
  have hn := groupNames_perm hs
  rw [State.recorded, List.mem_flatMap]
  constructor
  · rintro ⟨k, hk, hd⟩
    obtain ⟨n, hmem, rfl⟩ := List.mem_map.mp (hn.mem_iff.mpr hk)
    exact ⟨n, hmem, hd⟩
  · rintro ⟨n, hmem, hd⟩
    exact ⟨.str n, hn.mem_iff.mp (List.mem_map_of_mem hmem), hd⟩

lemma mem_gemsOf {gem : Gem} :
    gem ∈ gemsOf (groups s) ↔ ∃ d ∈ s.recorded, gem = declaredGem d := by
  simp only [gemsOf, groups, List.mem_flatMap, List.mem_map, mem_recorded hs]
  constructor
  · rintro ⟨_, ⟨n, hn, rfl⟩, hgem⟩
    obtain ⟨d, hd, rfl⟩ := List.mem_map.mp hgem
    exact ⟨d, ⟨n, hn, hd⟩, rfl⟩
  · rintro ⟨d, ⟨n, hn, hd⟩, rfl⟩
    exact ⟨groupOf s n, ⟨n, hn, rfl⟩, List.mem_map_of_mem hd⟩

lemma recorded_name {d : Declaration} (hd : d ∈ s.recorded) : d.name = .str d.name.text := by
  obtain ⟨group, -, hg⟩ := (mem_recorded hs).mp hd
  obtain ⟨n, hn⟩ := declarations_text hs hg
  rw [hn]
  rfl

lemma requested_name {d : Dependency} (hd : d ∈ s.requests) : d.name = .str d.name.text := by
  obtain ⟨n, hn⟩ := hs.requested d hd
  rw [hn]
  rfl

lemma mem_gemNames_groups {n : String} :
    n ∈ gemNames (gemsOf (groups s)) ↔ ∃ d ∈ s.recorded, d.name = .str n := by
  rw [gemNames, List.mem_map]
  constructor
  · rintro ⟨gem, hgem, rfl⟩
    obtain ⟨d, hd, rfl⟩ := (mem_gemsOf hs).mp hgem
    exact ⟨d, hd, recorded_name hs hd⟩
  · rintro ⟨d, hd, hn⟩
    refine ⟨declaredGem d, (mem_gemsOf hs).mpr ⟨d, hd, rfl⟩, ?_⟩
    show d.name.text = n
    rw [hn]
    rfl

omit hs in
lemma grouped_names (groups : List (String × List Gem)) :
    ((groups.map textualGroup).flatMap fun g => g.gems.map Prod.fst) =
      (gemNames (gemsOf groups)).map Scalar.str := by
  induction groups with
  | nil => rfl
  | cons group groups ih =>
    rw [gemsOf_cons, gemNames_append, List.map_append, ← ih, List.map_cons, List.flatMap_cons,
      gemNames, List.map_map]
    show (group.2.map textual).map Prod.fst ++ _ = _
    rw [List.map_map]
    rfl

lemma requests_text : ∀ p ∈ s.requests.map requested, ∃ n, p.1 = .str n := by
  intro p hp
  obtain ⟨d, hd, rfl⟩ := List.mem_map.mp hp
  exact hs.requested d hd

lemma ungrouped_textual :
    ((((s.requests.map requested).map gemOf).map textual).filter fun r =>
      !among r.1 ((gemNames (gemsOf (groups s))).map Scalar.str)) =
    (ungroupedGems s).map textual := by
  rw [List.map_map, List.map_map, List.filter_map, ungroupedGems, State.ungrouped, List.map_map]
  refine congrArg (List.map _) (List.filter_congr ?_)
  intro d hd
  obtain ⟨n, hn⟩ := hs.requested d hd
  show (!among (.str d.name.text) ((gemNames (gemsOf (groups s))).map Scalar.str)) = _
  rw [hn, Value.text_str, Bool.eq_iff_iff, Bool.not_eq_true', ← Bool.not_eq_true, among_str_iff,
    List.mem_map_of_injective fun _ _ => Scalar.str.inj, mem_gemNames_groups hs, decide_eq_true_iff]
  simp only [not_exists, not_and, ne_eq]

theorem ofState_items (g : Setting) : ofState g s = .ok (itemsOf g s) := by
  unfold ofState
  rw [groupsOf_textual hs, ok_bind, labelled_textual (requests_text hs), ok_bind]
  simp only [grouped_names, ungrouped_textual hs]
  show (gemEdges fileId none ((ungroupedGems s).map textual) (sheet [] [fileNode g]) >>= fun t =>
    groupItems g.without 0 ((groups s).map textualGroup) t >>= fun t => .ok t.items) = _
  rw [gemEdges_textual, ok_bind, groupItems_textual, ok_bind]
  rfl

end

/-! ## what the items show -/

/-- the graph of `s` with the groups `names` and the gems `gems` -/
structure Drawing (g : Setting) (s : State) (names : List String) (gems : List Gem)
    (items : List Item) : Prop where
  ids_nodup : (ids items).Nodup
  /-- the ends of an edge stand before it -/
  ends_before : ∀ before source target look behind,
    items = before ++ .edge source target look :: behind →
      source ∈ ids before ∧ target ∈ ids before
  reached : ∀ id ∈ ids items, Relation.ReflTransGen (Linked items) fileId id
  ids_cases : ∀ id ∈ ids items,
    id = fileId ∨ (∃ i < gems.length, id = gemId i) ∨ ∃ i < names.length, id = groupId i
  names_perm : (names.map Scalar.str).Perm s.groups.keys
  names_sorted : names.Pairwise (· ≤ ·)
  gems_nodup : (gemNames gems).Nodup
  mem_gems : ∀ n, n ∈ gemNames gems ↔
    (∃ d ∈ s.recorded, d.name = .str n) ∨ ∃ d ∈ s.requests, d.name = .str n
  labels : ∀ gem ∈ gems,
    (∃ d ∈ s.recorded, gem = declaredGem d) ∨ ∃ d ∈ s.requests, gem = requestedGem d
  folders : nodesOf "folder" items = [.node fileId (some g.file) "folder" none]
  ovals : nodesOf "oval" items = names.zipIdx.map fun p =>
    .node (groupId p.2) (some p.1) "oval"
      (some (if .str p.1 ∈ g.without then "dashed" else "solid"))
  rectangles : nodesOf "rectangle" items = gems.zipIdx.map fun p =>
    .node (gemId p.2) (some p.1.2) "rectangle" none
  /-- from the file there is an edge for each ungrouped request, and one for each group -/
  edges_of_file : edgesFrom fileId items =
    s.ungrouped.map (fun d => .edge fileId (nodeOf gems d.name.text) none) ++
      names.zipIdx.map fun p => .edge fileId (groupId p.2) none
  /-- from a group there is an edge for each of its declarations -/
  edges_of_group : ∀ p ∈ names.zipIdx,
    edgesFrom (groupId p.2) items = (s.declarations (.str p.1)).map fun d =>
      .edge (groupId p.2) (nodeOf gems d.name.text)
        (some (if .str p.1 ∈ g.without then "dashed" else "solid"))
  edges_of_gem : ∀ i, edgesFrom (gemId i) items = []

section
variable (g : Setting) (s : State)

lemma itemsOf_sketch : Sketch (allGems s) (groupNames s).length (itemsOf g s) := by
  have h1 : Sketch [] 0 [fileNode g] := .start g.file
  have h2 : fileId ∈ ids [fileNode g] := List.mem_singleton_self _
  have h3 := (h1.gems h2 none (ungroupedGems s)).groups g.without (groups s)
  rw [Nat.zero_add, groups, List.length_map] at h3
  exact h3

lemma zipIdx_groups {α : Type} (f : String × Nat → α) :
    ((groups s).zipIdx.map fun p => f (p.1.1, p.2)) = (groupNames s).zipIdx.map f := by
  rw [groups, List.zipIdx_map, List.map_map]
  rfl

lemma folders_itemsOf : nodesOf "folder" (itemsOf g s) = [fileNode g] := by
  rw [itemsOf, nodesOf_append, nodesOf_append, nodesOf_gemsDrawn _ _ _ _ (by decide),
    nodesOf_groupsDrawn _ _ _ _ (by decide) (by decide)]
  rfl

lemma ovals_itemsOf : nodesOf "oval" (itemsOf g s) =
    (groupNames s).zipIdx.map fun p => .node (groupId p.2) (some p.1) "oval"
      (some (if .str p.1 ∈ g.without then "dashed" else "solid")) := by
  rw [itemsOf, nodesOf_append, nodesOf_append, nodesOf_gemsDrawn _ _ _ _ (by decide),
    ovals_groupsDrawn]
  simp only [← styleOf_str]
  exact zipIdx_groups s fun p => oval g.without p.1 p.2

lemma boxes_itemsOf : nodesOf "rectangle" (itemsOf g s) = boxes (allGems s) := by
  rw [itemsOf, nodesOf_append, nodesOf_append, allGems, boxes_groupsDrawn g.without _ 0,
    boxes_gemsDrawn fileId none]
  rfl

lemma edges_of_file : edgesFrom fileId (itemsOf g s) =
    s.ungrouped.map (fun d => .edge fileId (nodeOf (allGems s) d.name.text) none) ++
      (groupNames s).zipIdx.map fun p => spoke p.2 := by
  rw [itemsOf, edgesFrom_append, edgesFrom_append, fileNode, edgesFrom_node, List.nil_append,
    edgesFrom_gemsDrawn (prefix_meetAll _ _), edgesFrom_file, zipIdx_groups s fun p => spoke p.2,
    ungroupedGems, List.map_map]
  rfl

lemma edges_of_group {p : String × Nat} (hp : p ∈ (groupNames s).zipIdx) :
    edgesFrom (groupId p.2) (itemsOf g s) = (s.declarations (.str p.1)).map fun d =>
      .edge (groupId p.2) (nodeOf (allGems s) d.name.text)
        (some (if .str p.1 ∈ g.without then "dashed" else "solid")) := by
  have h1 : (groupOf s p.1, p.2) ∈ (groups s).zipIdx := by
    rw [groups, List.zipIdx_map]
    exact List.mem_map_of_mem (f := Prod.map (groupOf s) id) hp
  rw [itemsOf, edgesFrom_append, edgesFrom_append, fileNode, edgesFrom_node, List.nil_append,
    edgesFrom_gemsDrawn_of_ne (groupId_ne_fileId _).symm, List.nil_append,
    edgesFrom_groupsDrawn h1 (List.prefix_refl _), ← styleOf_str]
  exact List.map_map

lemma edges_of_gem (i : Nat) : edgesFrom (gemId i) (itemsOf g s) = [] := by
  rw [itemsOf, edgesFrom_append, edgesFrom_append, fileNode, edgesFrom_node,
    edgesFrom_gemsDrawn_of_ne (gemId_ne_fileId i).symm,
    edgesFrom_groupsDrawn_of_ne (gemId_ne_fileId i).symm fun j _ => groupId_ne_gemId j i]
  rfl

end

section
variable {s : State} (hs : s.Drawable)
include hs

lemma labels_allGems {gem : Gem} (h : gem ∈ allGems s) :
    (∃ d ∈ s.recorded, gem = declaredGem d) ∨ ∃ d ∈ s.requests, gem = requestedGem d := by
  rcases mem_of_mem_meetAll h with h | h
  · rcases mem_of_mem_meetAll h with h | h
    · cases h
    · obtain ⟨d, hd, rfl⟩ := List.mem_map.mp h
      exact .inr ⟨d, List.mem_of_mem_filter hd, rfl⟩
  · exact .inl ((mem_gemsOf hs).mp h)

lemma mem_allGems (n : String) : n ∈ gemNames (allGems s) ↔
    (∃ d ∈ s.recorded, d.name = .str n) ∨ ∃ d ∈ s.requests, d.name = .str n := by
  constructor
  · intro h
    obtain ⟨gem, hgem, rfl⟩ := List.mem_map.mp h
    rcases labels_allGems hs hgem with ⟨d, hd, rfl⟩ | ⟨d, hd, rfl⟩
    · exact .inl ⟨d, hd, recorded_name hs hd⟩
    · exact .inr ⟨d, hd, requested_name hs hd⟩
  · intro h
    rw [allGems, mem_gemNames_meetAll, mem_gemNames_meetAll, mem_gemNames_groups hs]
    by_cases hr : ∃ d ∈ s.recorded, d.name = .str n
    · exact .inr hr
    · -- no declaration has the name, so the request hangs off the file
      obtain ⟨d, hd, hn⟩ := h.resolve_left hr
      have h1 : d ∈ s.ungrouped := by
        refine List.mem_filter.mpr ⟨hd, decide_eq_true ?_⟩
        intro e he hname
        exact hr ⟨e, he, hname.trans hn⟩
      have h2 : d.name.text = n := by
        rw [hn]
        rfl
      have h3 : n ∈ gemNames (ungroupedGems s) := by
        rw [← h2]
        exact List.mem_map_of_mem (f := Prod.fst) (List.mem_map_of_mem h1)
      exact .inl (.inr h3)

theorem ofState_drawing (g : Setting) :
    ∃ names gems items, ofState g s = .ok items ∧ Drawing g s names gems items := by
  have h := itemsOf_sketch g s
  have h1 : (gemNames []).Nodup := List.nodup_nil
  refine ⟨groupNames s, allGems s, itemsOf g s, ofState_items hs g, ?_⟩
  exact {
    ids_nodup := h.grown.ids_nodup
    ends_before := fun before source target look behind he => h.grown.ends_before he
    reached := fun id hi => h.grown.reached hi
    ids_cases := fun id hi => (h.mem_ids id).mp hi
    names_perm := groupNames_perm hs
    names_sorted := List.pairwise_mergeSort' (· ≤ ·) _
    gems_nodup := nodup_meetAll (nodup_meetAll h1 _) _
    mem_gems := mem_allGems hs
    labels := fun _ => labels_allGems hs
    folders := folders_itemsOf g s
    ovals := ovals_itemsOf g s
    rectangles := boxes_itemsOf g s
    edges_of_file := edges_of_file g s
    edges_of_group := fun _ => edges_of_group g s
    edges_of_gem := edges_of_gem g s }

end

/-- a gem that is requested and in two groups, one of them excluded, and one that is only requested -/
theorem ofState_drawing_shared :
    let g : Setting := ⟨⟨0, ["gem.deps.rb"]⟩, [.str "test"], none, ⟨none, .output ""⟩⟩
    let s : State := { State.start .standard with
      requests := [⟨.str "a", []⟩, ⟨.str "b", []⟩]
      groups := [(.str "test", [⟨.str "a", [.str ">= 1"], []⟩]),
        (.str "dev", [⟨.str "c", [], []⟩, ⟨.str "a", [], []⟩])] }
    s.Drawable ∧ ∃ names gems items, ofState g s = .ok items ∧ Drawing g s names gems items := by
  intro g s
  have hs : s.Drawable := {
    groups := by simp [s, Table.keys]
    declared := by simp [s]
    requested := by simp [s] }
  exact ⟨hs, ofState_drawing hs g⟩

end Graph

end Gemfile
