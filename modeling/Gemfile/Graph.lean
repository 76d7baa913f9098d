import Gemfile.Evaluation.State
import Gemfile.Value.Text

/-!
# The graph of an evaluated file

A file is drawn as a node with an edge to each of its groups, and each group with an edge to the gem
of each of its declarations.  Requested gems that no group declares hang off the file.  There is one
node for each name of a gem.

* `Graph.Item`      a node or an edge
* `Sheet`           the items drawn so far and the node of each gem
* `Graph.ofState`   the items of a state, or the value that cannot be drawn
-/

namespace Gemfile

namespace Graph

inductive Item where
  | node (id : String) (label : Option String) (shape : String) (style : Option String)
  | edge (source target : String) (style : Option String)
deriving DecidableEq

structure Sheet where
  gems : Table Scalar String
  items : List Item

namespace Sheet

def empty : Sheet := ⟨[], []⟩

def draw (t : Sheet) (i : Item) : Sheet := { t with items := t.items ++ [i] }

end Sheet

def fileId : String := "file"

def gemId (n : Nat) : String := "gem" ++ n.repr

def groupId (n : Nat) : String := "group" ++ n.repr

/-- the texts among some values -/
def textsAmong : List Value → List String
  | [] => []
  | .str s :: vs => s :: textsAmong vs
  | _ :: vs => textsAmong vs

/-- a gem's name, with those of its requirements that are texts on a line below -/
def gemLabel (name : Value) (requirements : List Value) : Value :=
  match textsAmong requirements with
  | [] => name
  | texts => .str (name.text ++ "\n" ++ ", ".intercalate texts)

/-- the label of a node: a text, or none for nil -/
def labelOf : Value → Except Fault (Option String)
  | .nil => .ok none
  | .str s => .ok (some s)
  | _ => .error (.value .notText)

def gemNode (name : Scalar) (label : Value) (t : Sheet) : Except Fault (String × Sheet) :=
  match Table.get? name t.gems with
  | some id => .ok (id, t)
  | none => do
    let id := gemId t.gems.length
    let l ← labelOf label
    return (id, { t with gems := Table.put name id t.gems }.draw (.node id l "rectangle" none))

def gemEdge (source : String) (style : Option String) (name : Scalar) (label : Value) (t : Sheet) :
    Except Fault Sheet := do
  let (id, t) ← gemNode name label t
  return t.draw (.edge source id style)

def gemEdges (source : String) (style : Option String) :
    List (Scalar × Value) → Sheet → Except Fault Sheet
  | [], t => .ok t
  | (name, label) :: gems, t => do
    let t ← gemEdge source style name label t
    gemEdges source style gems t

def labelled : List (Value × List Value) → Except Fault (List (Scalar × Value))
  | [] => .ok []
  | (name, requirements) :: gems => do
    let n ← Vendored.nameOf name
    let rest ← labelled gems
    return (n, gemLabel name requirements) :: rest

/-- the rest of a declaration behind the name -/
def declared (d : Declaration) : Value × List Value := (d.name, d.requirements)

def requested (d : Dependency) : Value × List Value := (d.name, d.requirementTexts.map Value.str)

/-- a group with its declarations as gems -/
structure Group where
  name : Scalar
  gems : List (Scalar × Value)

/-- the groups of a table in the order of their names -/
def groupsOf (t : Table Scalar (List Declaration)) : Except Fault (List Group) :=
  match sorted? t.keys with
  | none => .error (.value .notSortable)
  | some names => names.mapM fun n => do
    let gems ← labelled (((Table.get? n t).getD []).map declared)
    return ⟨n, gems⟩

/-- the style of an excluded group and of others -/
def styleOf (without : List Scalar) (name : Scalar) : String :=
  if among name without then "dashed" else "solid"

/-- groups from number `i` on -/
def groupItems (without : List Scalar) : Nat → List Group → Sheet → Except Fault Sheet
  | _, [], t => .ok t
  | i, g :: gs, t => do
    let style := styleOf without g.name
    let t := t.draw (.node (groupId i) (some g.name.text) "oval" (some style))
    let t := t.draw (.edge fileId (groupId i) none)
    let t ← gemEdges (groupId i) (some style) g.gems t
    groupItems without (i + 1) gs t

def ofState (g : Setting) (s : State) : Except Fault (List Item) := do
  let groups ← groupsOf s.groups
  let requests ← labelled (s.requests.map requested)
  let grouped := groups.flatMap fun g => g.gems.map Prod.fst
  let sheet := Sheet.empty.draw (.node fileId (some g.file) "folder" none)
  let sheet ← gemEdges fileId none (requests.filter fun r => !among r.1 grouped) sheet
  let sheet ← groupItems g.without 0 groups sheet
  return sheet.items

end Graph

end Gemfile
