import Gemfile.Value.Key
import Gemfile.Value.Text

/-!
# Gem sources

The sources of gems in the order in which they were added, with repetitions.

* `Sources.standard`   the sources before a file names any
* `Sources.append`, `Sources.clear`, `Sources.at?`, `Sources.same`
-/

namespace Gemfile

structure Sources where
  urls : List Value
deriving DecidableEq

namespace Sources

def standard : Sources := ⟨[.str "https://rubygems.org/"]⟩

def clear (_ : Sources) : Sources := ⟨[]⟩

def append (s : Sources) (url : Value) : Sources := ⟨s.urls ++ [url]⟩

/-- the source at a place; places below zero are counted from the end -/
def at? (s : Sources) (place : Int) : Option Value :=
  match place with
  | .ofNat i => s.urls[i]?
  | .negSucc i => s.urls.reverse[i]?

def same (s t : Sources) : Bool := Value.sameItems s.urls t.urls

def literal (s : Sources) : String := "SourceList(" ++ (Value.list s.urls).literal ++ ")"

end Sources

end Gemfile
