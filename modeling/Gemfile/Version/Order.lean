import Gemfile.Version

/-!
# Precedence of versions

The three numbers decide first.  Of two versions with the same numbers, one without a prerelease
comes last; otherwise the first prerelease segments that differ decide: numbers by value, words
letter by letter, a number before a word; a prerelease comes after those it continues.

* `Version.compare`, `Version.le`, `Version.lt`   the order
* `Version.sort`                                  a list of versions in that order
-/

namespace Gemfile

def Identifier.compare : Identifier → Identifier → Ordering
  | .number m, .number n => Ord.compare m n
  | .number _, .word _ => .lt
  | .word _, .number _ => .gt
  | .word v, .word w => Ord.compare v w

namespace Version

def comparePrerelease : List Identifier → List Identifier → Ordering
  | [], [] => .eq
  | [], _ :: _ => .gt
  | _ :: _, [] => .lt
  | a, b => List.compareLex Identifier.compare a b

def compareRelease (a b : Version) : Ordering :=
  (Ord.compare a.major b.major).then
    ((Ord.compare a.minor b.minor).then (Ord.compare a.patch b.patch))

def compare (a b : Version) : Ordering :=
  (compareRelease a b).then (comparePrerelease a.prerelease b.prerelease)

def le (a b : Version) : Bool := (compare a b).isLE

def lt (a b : Version) : Bool := (compare a b).isLT

def sort (vs : List Version) : List Version := vs.mergeSort le

end Version

end Gemfile
