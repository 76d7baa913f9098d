import Gemfile.Value.Text
import Gemfile.Version.Order

/-!
# Requirements on the version of a gem

* `Clause`               a comparison with a version; `Clause.admits` tells which satisfy it
* `Requirement.ofValue`  the clauses of one requirement such as `~> 1.2`
* `admits clauses v`     `v` satisfies every clause; no clauses at all ask for a release or later
* `bump release`         the bound that the pessimistic sign puts on versions

A clause below or unlike a release never admits a prerelease of that release; apart from that, a
clause compares by precedence.
-/

namespace Gemfile

inductive Comparison where
  | equal
  | unlike
  | atLeast
  | atMost
  | above
  | below
deriving DecidableEq

def Comparison.sign : Comparison → String
  | .equal => "=="
  | .unlike => "!="
  | .atLeast => ">="
  | .atMost => "<="
  | .above => ">"
  | .below => "<"

structure Clause where
  comparison : Comparison
  version : Version
deriving DecidableEq

namespace Clause

def text (c : Clause) : String := c.comparison.sign ++ c.version.text

def prereleaseOf (v w : Version) : Bool :=
  v.isPrerelease && !w.isPrerelease && decide (v.release = w)

def admits (c : Clause) (v : Version) : Bool :=
  match c.comparison with
  | .equal => decide (v = c.version)
  | .unlike => !prereleaseOf v c.version && decide (v ≠ c.version)
  | .atLeast => c.version.le v
  | .atMost => v.le c.version
  | .above => c.version.lt v
  | .below => !prereleaseOf v c.version && v.lt c.version

end Clause

/-- what is wrong with a version or a requirement: it is not spelled like one -/
inductive RequirementFault where
  | version (v : Value)
  | requirement (v : Value)
deriving DecidableEq

def RequirementFault.message : RequirementFault → String
  | .version v => "Invalid gem version " ++ v.literal
  | .requirement v => "Invalid gem requirement " ++ v.literal

def Version.ofValue (v : Value) : Except RequirementFault Version :=
  match v with
  | .str s =>
    match Version.read? s.toList with
    | some version => .ok version
    | none => .error (.version v)
  | _ => .error (.version v)

structure Requirement where
  text : String
  clauses : List Clause
deriving DecidableEq

namespace Requirement

inductive Sign where
  | compare (c : Comparison)
  | pessimistic
deriving DecidableEq

def sign : List Char → Sign × List Char
  | '=' :: r => (.compare .equal, r)
  | '!' :: '=' :: r => (.compare .unlike, r)
  | '>' :: '=' :: r => (.compare .atLeast, r)
  | '<' :: '=' :: r => (.compare .atMost, r)
  | '>' :: r => (.compare .above, r)
  | '<' :: r => (.compare .below, r)
  | '~' :: '>' :: r => (.pessimistic, r)
  | r => (.compare .equal, r)

/-- a text that starts with a digit and has only characters that versions have -/
def versionLike (cs : List Char) : Bool :=
  (cs.head?.any Char.isDigit) && cs.all fun c => c.isAlphanum || c == '.' || c == '-'

def bump (release : List Nat) : List Nat :=
  let kept := if 1 < release.length then release.dropLast else release
  kept.dropLast ++ [kept.getLastD 0 + 1]

def bound (cs : List Char) : Version :=
  Version.ofRelease (bump (Version.releaseOf (Version.segments cs))) []

def clausesOf (s : Sign) (cs : List Char) (v : Version) : List Clause :=
  match s with
  | .compare c => [⟨c, v⟩]
  | .pessimistic => [⟨.atLeast, v⟩, ⟨.below, bound cs⟩]

def ofValue (v : Value) : Except RequirementFault Requirement :=
  match v with
  | .str s =>
    let (mark, rest) := sign (Text.strip s.toList)
    let spelled := Text.stripLeft rest
    if versionLike spelled then
      match Version.read? spelled with
      | some version => .ok ⟨s, clausesOf mark spelled version⟩
      | none => .error (.version (.str (String.ofList spelled)))
    else .error (.requirement v)
  | _ => .error (.requirement v)

end Requirement

/-- the requirements that some values write, or the fault of the first that writes none -/
def requirementsOf : List Value → Except RequirementFault (List Requirement)
  | [] => .ok []
  | v :: vs => do
    let r ← Requirement.ofValue v
    let rs ← requirementsOf vs
    return r :: rs

/-- where no clause is given, releases and their successors are admitted -/
def anyVersion : Clause := ⟨.atLeast, ⟨0, 0, 0, []⟩⟩

def admits (clauses : List Clause) (v : Version) : Bool :=
  if clauses.isEmpty then anyVersion.admits v else clauses.all (·.admits v)

/-- the clauses with commas between them, a star if there are none -/
def specText (clauses : List Clause) : String :=
  if clauses.isEmpty then "*" else ",".intercalate (clauses.map Clause.text)

end Gemfile
