/-!
# Tables in order of insertion

A table is a list of entries, told apart by the key of what they are filed under.  Filing
something again keeps the entry's place, and the name under which it was filed first.

* `Keyed`            what tells two names apart
* `Table.get?`       what is filed under a name
* `Table.put`        file something under a name
* `Table.putAll`     file every entry of another table
* `distinct`         a list of names without the later ones of each key
-/

namespace Gemfile

/-- names of type `κ` are told apart by their keys -/
class Keyed (κ : Type) (Key : outParam Type) where
  key : κ → Key

/-- texts are told apart by themselves -/
instance : Keyed String String := ⟨id⟩

abbrev Table (κ α : Type) := List (κ × α)

section
variable {κ Key α : Type} [Keyed κ Key] [DecidableEq Key]

def sameKey (k l : κ) : Bool := decide (Keyed.key k = Keyed.key l)

def among (k : κ) (ks : List κ) : Bool := ks.any (sameKey k)

/-- the names of a list, each key once, in the order of their first occurrences -/
def distinctFrom (seen : List κ) : List κ → List κ
  | [] => []
  | k :: ks => if among k seen then distinctFrom seen ks else k :: distinctFrom (k :: seen) ks

def distinct (ks : List κ) : List κ := distinctFrom [] ks

namespace Table

def keys (t : Table κ α) : List κ := t.map Prod.fst

def get? (k : κ) : Table κ α → Option α
  | [] => none
  | e :: t => if sameKey k e.1 then some e.2 else get? k t

def contains (k : κ) (t : Table κ α) : Bool := (get? k t).isSome

def put (k : κ) (a : α) : Table κ α → Table κ α
  | [] => [(k, a)]
  | e :: t => if sameKey k e.1 then (e.1, a) :: t else e :: put k a t

def putAll (t u : Table κ α) : Table κ α := u.foldl (fun t e => put e.1 e.2 t) t

theorem put_nil (k : κ) (a : α) : put k a [] = [(k, a)] := rfl
theorem putAll_nil (t : Table κ α) : putAll t [] = t := rfl
theorem putAll_cons (t : Table κ α) (e : κ × α) (u : Table κ α) :
    putAll t (e :: u) = putAll (put e.1 e.2 t) u := rfl

end Table

end

end Gemfile
