import Gemfile.Graph
import Mathlib.Data.List.Nodup
import Mathlib.Logic.Relation
import Mathlib.Tactic.Lemma

/-!
# Items that are drawn in order

A list of items grows from one node by two steps: a new node with an edge to it, or an edge between
nodes that are there.  Such a list has no node twice and no edge before its ends, and every node is
reached from the first one.

* `ids`                   the nodes of some items, by their ids
* `nodesOf`, `edgesFrom`  the nodes of a shape, the edges from a node
* `Linked`                an edge leads from a node to another
* `Grown root items`      `items` are grown from the node `root`
-/

namespace Gemfile

namespace Graph

def Item.id? : Item → Option String
  | .node id _ _ _ => some id
  | .edge _ _ _ => none

def Item.hasShape (shape : String) : Item → Bool
  | .node _ _ s _ => decide (s = shape)
  | .edge _ _ _ => false

def Item.leaves (source : String) : Item → Bool
  | .node _ _ _ _ => false
  | .edge s _ _ => decide (s = source)

def ids (items : List Item) : List String := items.filterMap Item.id?

def nodesOf (shape : String) (items : List Item) : List Item := items.filter (Item.hasShape shape)

def edgesFrom (source : String) (items : List Item) : List Item := items.filter (Item.leaves source)

def Linked (items : List Item) (a b : String) : Prop := ∃ style, Item.edge a b style ∈ items

section
variable (a b : List Item) (i : Item)

lemma ids_append : ids (a ++ b) = ids a ++ ids b := List.filterMap_append

lemma nodesOf_append (shape : String) : nodesOf shape (a ++ b) = nodesOf shape a ++ nodesOf shape b :=
  List.filter_append a b

lemma edgesFrom_append (source : String) :
    edgesFrom source (a ++ b) = edgesFrom source a ++ edgesFrom source b :=
  List.filter_append a b

lemma nodesOf_cons (shape : String) : nodesOf shape (i :: b) = nodesOf shape [i] ++ nodesOf shape b :=
  nodesOf_append [i] b shape

end

section
variable (id : String) (label : Option String) (shape : String) (style : Option String)
  (source target : String)

lemma ids_node : ids [.node id label shape style] = [id] := rfl

lemma ids_edge : ids [.edge source target style] = [] := rfl

lemma nodesOf_node : nodesOf shape [.node id label shape style] = [.node id label shape style] :=
  List.filter_cons_of_pos (decide_eq_true rfl)

lemma nodesOf_node_of_ne {shape' : String} (h : shape' ≠ shape) :
    nodesOf shape [.node id label shape' style] = [] :=
  List.filter_cons_of_neg (fun e => h (of_decide_eq_true e))

lemma nodesOf_edge : nodesOf shape [.edge source target style] = [] := rfl

lemma edgesFrom_node : edgesFrom source [.node id label shape style] = [] := rfl

lemma edgesFrom_edge : edgesFrom source [.edge source target style] = [.edge source target style] :=
  List.filter_cons_of_pos (decide_eq_true rfl)

lemma edgesFrom_edge_of_ne {source' : String} (h : source' ≠ source) :
    edgesFrom source [.edge source' target style] = [] :=
  List.filter_cons_of_neg (fun e => h (of_decide_eq_true e))

end

lemma Linked.append {items : List Item} {a b : String} (h : Linked items a b) (more : List Item) :
    Linked (items ++ more) a b := by
  obtain ⟨style, h⟩ := h
  exact ⟨style, List.mem_append_left more h⟩

inductive Grown (root : String) : List Item → Prop
  | root (label : Option String) (shape : String) (style : Option String) :
      Grown root [.node root label shape style]
  | branch {items : List Item} {source id : String} (label : Option String) (shape : String)
      (style look : Option String) (h : Grown root items) (hs : source ∈ ids items)
      (hn : id ∉ ids items) :
      Grown root (items ++ [.node id label shape style, .edge source id look])
  | link {items : List Item} {source target : String} (look : Option String) (h : Grown root items)
      (hs : source ∈ ids items) (ht : target ∈ ids items) :
      Grown root (items ++ [.edge source target look])

namespace Grown

variable {root : String} {items : List Item}

theorem ids_nodup (h : Grown root items) : (ids items).Nodup := by
  induction h with
  | root => exact List.nodup_singleton root
  | @branch items source id label shape style look h hs hn ih =>
    have h1 : ids (items ++ [.node id label shape style, .edge source id look])
        = ids items ++ [id] := ids_append _ _
    rw [h1]
    refine List.nodup_append.mpr ⟨ih, List.nodup_singleton id, ?_⟩
    intro a ha b hb
    rw [List.mem_singleton] at hb
    rintro rfl
    exact hn (hb ▸ ha)
  | @link items source target look h hs ht ih =>
    have h1 : ids (items ++ [.edge source target look]) = ids items := by
      rw [ids_append, ids_edge, List.append_nil]
    rw [h1]
    exact ih

/-- the parts in which an edge cuts some items with one more -/
lemma cut_snoc {before behind : List Item} {e i : Item}
    (h : items ++ [i] = before ++ e :: behind) :
    (∃ rest, items = before ++ e :: rest) ∨ before = items ∧ e = i := by
  rcases List.eq_nil_or_concat behind with rfl | ⟨rest, last, rfl⟩
  · obtain ⟨h1, h2⟩ := List.append_inj' h rfl
    exact .inr ⟨h1.symm, (List.cons.inj h2).1.symm⟩
  · left
    have h1 : items ++ [i] = (before ++ e :: rest) ++ [last] := by
      rw [h, List.concat_eq_append, List.append_assoc, List.cons_append]
    exact ⟨rest, (List.append_inj' h1 rfl).1⟩

theorem ends_before (h : Grown root items) {before behind : List Item} {source target : String}
    {look : Option String} (he : items = before ++ .edge source target look :: behind) :
    source ∈ ids before ∧ target ∈ ids before := by
  induction h generalizing behind with
  | root label shape style =>
    have he' : [] ++ [.node root label shape style] = before ++ .edge source target look :: behind := he
    rcases cut_snoc he' with ⟨rest, h1⟩ | ⟨-, h1⟩
    · cases List.append_eq_nil_iff.mp h1.symm |>.2
    · cases h1
  | @branch items a id label shape style _ h hs hn ih =>
    rw [List.append_cons] at he
    rcases cut_snoc he with ⟨rest, h1⟩ | ⟨h1, h2⟩
    · rcases cut_snoc h1 with ⟨rest', h3⟩ | ⟨-, h3⟩
      · exact ih h3
      · cases h3
    · cases h2
      rw [h1, ids_append]
      exact ⟨List.mem_append_left _ hs, List.mem_append_right _ (List.mem_singleton_self _)⟩
  | link _ h hs ht ih =>
    rcases cut_snoc he with ⟨rest, h1⟩ | ⟨h1, h2⟩
    · exact ih h1
    · cases h2
      rw [h1]
      exact ⟨hs, ht⟩

lemma linked_append {a b : String} (h : Relation.ReflTransGen (Linked items) a b)
    (more : List Item) : Relation.ReflTransGen (Linked (items ++ more)) a b :=
  Relation.ReflTransGen.mono (fun _ _ hl => Linked.append hl more) _ _ h

theorem reached (h : Grown root items) {id : String} (hi : id ∈ ids items) :
    Relation.ReflTransGen (Linked items) root id := by
  induction h generalizing id with
  | root =>
    rw [ids_node, List.mem_singleton] at hi
    rw [hi]
  | @branch items source new label shape style look h hs hn ih =>
    rw [ids_append] at hi
    rcases List.mem_append.mp hi with hi | hi
    · exact linked_append (ih hi) _
    · have h1 : id = new := List.mem_singleton.mp hi
      rw [h1]
      refine (linked_append (ih hs) _).tail ⟨look, List.mem_append_right _ ?_⟩
      exact List.mem_cons_of_mem _ (List.mem_singleton_self _)
  | link look h hs ht ih =>
    rw [ids_append, ids_edge, List.append_nil] at hi
    exact linked_append (ih hi) _

end Grown

end Graph

end Gemfile
