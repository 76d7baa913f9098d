import Gemfile.Sorting.Runs
import Gemfile.Value.Key

/-!
# Order of scalars

Numbers and truth values are ordered by value, texts by code point.  A text does not compare with
a number, and nil compares with nothing, itself included.  What is no number is neither before nor
behind any number, so names with it among them have no order that fits them all, and go where
sorting by runs puts them.

* `Key.le`           the order of comparable keys
* `sorted? names`    the names in order, and `none` if two of them cannot be compared
* `sorted?_perm`     no name is lost or added
-/

namespace Gemfile

/-- the comparable kinds of key; nil has none -/
inductive Key.Kind where
  | number
  | text
deriving DecidableEq

def Key.kind? : Key → Option Key.Kind
  | .nil => none
  | .number _ => some .number
  | .infinite _ => some .number
  | .nan _ => some .number
  | .text _ => some .text

def Key.le : Key → Key → Bool
  | .number x, .number y => decide (x ≤ y)
  | .nan _, _ => true
  | _, .nan _ => true
  | .infinite true, _ => true
  | _, .infinite false => true
  | .infinite false, _ => false
  | _, .infinite true => false
  | .text s, .text t => decide (s ≤ t)
  | _, _ => true

/-- whether a list of names can be sorted: at most one name, or all of one kind -/
def sortable (names : List Scalar) : Bool :=
  match names with
  | [] => true
  | [_] => true
  | n :: rest =>
    n.key.kind?.isSome && rest.all fun m => decide (m.key.kind? = n.key.kind?)

def Scalar.lt (a b : Scalar) : Bool := !b.key.le a.key

def sorted? (names : List Scalar) : Option (List Scalar) :=
  if !sortable names then none
  else if names.any Scalar.isNan then some (Sorting.byRuns Scalar.lt names)
  else some (names.mergeSort fun a b => a.key.le b.key)

theorem sorted?_perm {names sorted : List Scalar} (h : sorted? names = some sorted) :
    sorted.Perm names := by
  rw [sorted?] at h
  split at h
  · simp at h
  · split at h
    · obtain rfl := Option.some.inj h
      exact Sorting.byRuns_perm ..
    · obtain rfl := Option.some.inj h
      exact List.mergeSort_perm ..

end Gemfile
