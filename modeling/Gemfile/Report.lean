import Gemfile.Evaluation.State

/-!
# Summary of an evaluation

* `Report`            what a finished evaluation says about its file
* `State.report`      the report of a state; it needs the excluded groups in order, so they have to
                      compare with each other
-/

namespace Gemfile

structure Report where
  file : String
  requests : List Dependency
  groups : Table Scalar (List Declaration)
  without : List Scalar
  sources : List Value
  vendored : Table Scalar Path

def State.report (g : Setting) (s : State) : Except Fault Report :=
  match sorted? g.without with
  | none => .error (.value .notSortable)
  | some names =>
    .ok { file := g.file
          requests := s.requests
          groups := s.groups
          without := names
          sources := s.sources.urls
          vendored := s.vendored.directories }

end Gemfile
