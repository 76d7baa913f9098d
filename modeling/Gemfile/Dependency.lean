import Gemfile.Requirement
import Gemfile.Value.Order

/-!
# Dependencies

A dependency is a gem by name with the requirements on its version.  It exists only if every
requirement is one, so `Dependency.ofValues` is the way to make it.

* `Dependency.admits d v`   every clause of every requirement admits `v`
* `Dependency.text? d`      `name (requirement, …)`; a bare name has a text only if it is one
* `Dependency.lt? d e`      by name and then by requirements, for names that compare
-/

namespace Gemfile

structure Dependency where
  name : Value
  requirements : List Requirement
deriving DecidableEq

namespace Dependency

def ofValues (name : Value) (requirements : List Value) : Except RequirementFault Dependency := do
  let rs ← requirementsOf requirements
  return ⟨name, rs⟩

def requirementTexts (d : Dependency) : List String := d.requirements.map Requirement.text

def clauses (d : Dependency) : List Clause := d.requirements.flatMap Requirement.clauses

def admits (d : Dependency) (v : Version) : Bool := Gemfile.admits d.clauses v

def labelled (name : String) (requirements : List String) : String :=
  if requirements.isEmpty then name else name ++ " (" ++ ", ".intercalate requirements ++ ")"

/-- the text of a dependency; where the text of the name alone is asked for, only a text has one -/
def text? (d : Dependency) : Option String :=
  match d.name with
  | .str s => some (labelled s d.requirementTexts)
  | v => if d.requirements.isEmpty then none else some (labelled v.text d.requirementTexts)

def text (d : Dependency) : String := labelled d.name.text d.requirementTexts

def literal (d : Dependency) : String :=
  "GemDependency(" ++ d.name.literal ++ ", " ++ literalSequence d.requirementTexts ++ ")"

def same (d e : Dependency) : Bool :=
  d.name.equals e.name && decide (d.requirementTexts = e.requirementTexts)

def lt? (d e : Dependency) : Option Bool :=
  if d.name.same e.name then some (decide (d.requirementTexts < e.requirementTexts))
  else
    match d.name, e.name with
    | .scalar a, .scalar b =>
      if sortable [a, b] then some (a.lt b) else none
    | _, _ => none

/-- some dependencies in order, and `none` if two of their names do not compare -/
def sorted? (ds : List Dependency) : Option (List Dependency) :=
  if ds.all fun d => ds.all fun e => (d.lt? e).isSome then
    let before (d e : Dependency) := d.lt? e == some true
    some (if ds.any fun d => d.name.isNan then Sorting.byRuns before ds
      else ds.mergeSort fun d e => !before e d)
  else none

/-- some dependencies without the later ones of those that are the same, and `none` if one of them
has a name that is no scalar -/
def distinct? (ds : List Dependency) : Option (List Dependency) :=
  if ds.all fun d => d.name.scalar?.isSome then
    some (ds.foldl (fun seen d => if seen.any (d.same ·) then seen else seen ++ [d]) [])
  else none

end Dependency

end Gemfile
