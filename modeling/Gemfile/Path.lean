import Gemfile.Text.Fields

/-!
# Paths

A path is kept in its normal form: single slashes, no empty components and no `.`; `..` stays, and
two slashes at the front differ from one and from none.

* `Path.ofText s`       the path that `s` writes
* `Path.text p`         its normal form
* `Path.name p`         its last component
* `Path.beginnings p`   the paths that lead to it
-/

namespace Gemfile

structure Path where
  /-- the slashes in front: none, one or two -/
  root : Nat
  parts : List String
deriving DecidableEq

namespace Path

/-- one slash or more than two are one root, two are another -/
def rootOf (slashes : Nat) : Nat := if slashes = 2 then 2 else min slashes 1

def isPart (cs : List Char) : Bool := !cs.isEmpty && cs != ['.']

def ofText (s : String) : Path :=
  let cs := s.toList
  { root := rootOf (cs.takeWhile (· == '/')).length
    parts := ((Text.fields '/' cs).filter isPart).map String.ofList }

def text (p : Path) : String :=
  if p.root = 0 ∧ p.parts.isEmpty then "."
  else String.ofList (List.replicate p.root '/') ++ "/".intercalate p.parts

def name (p : Path) : String := p.parts.getLastD ""

def beginnings (p : Path) : List Path :=
  (List.range p.parts.length).map fun n => { p with parts := p.parts.take (n + 1) }

end Path

end Gemfile
