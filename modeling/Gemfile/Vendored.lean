import Gemfile.Fault
import Gemfile.Log
import Gemfile.Value.Key

/-!
# Vendored gems

Gems that a directory provides instead of a source.

* `Vendored.add`    file a directory under the name of a gem, with the messages that belong to it
* `Vendored.spec`   what is known of a vendored gem
-/

namespace Gemfile

structure Vendored where
  directories : Table Scalar Path
deriving DecidableEq

namespace Vendored

def empty : Vendored := ⟨[]⟩

def pathOf : Value → Except Fault Path
  | .str s => .ok (Path.ofText s)
  | _ => .error (.value .notPath)

def nameOf : Value → Except Fault Scalar
  | .scalar s => .ok s
  | _ => .error (.value .notScalar)

def put (v : Vendored) (name : Scalar) (directory : Path) : Vendored :=
  ⟨Table.put name directory v.directories⟩

def messages (v : Vendored) (name : Scalar) (directory : Path) : List Log.Entry :=
  let note : Log.Entry :=
    ⟨.debug, .vendored, "Vendoring gem " ++ name.text ++ " from " ++ directory.text⟩
  match Table.get? name v.directories with
  | some previous =>
    if previous = directory then [note]
    else
      [⟨.warning, .vendored, "Gem " ++ name.text ++ " was vendored from " ++ previous.text ++
        "; now using " ++ directory.text⟩, note]
  | none => [note]

/-- the entry that a name and a directory of any kind ask for -/
def entry (name directory : Value) : Except Fault (Scalar × Path) := do
  let p ← pathOf directory
  let n ← nameOf name
  return (n, p)

def add (v : Vendored) (name directory : Value) : Except Fault (Vendored × List Log.Entry) := do
  let (n, p) ← entry name directory
  return (v.put n p, v.messages n p)

def contains (v : Vendored) (name : Value) : Except Fault Bool := do
  let n ← nameOf name
  return Table.contains n v.directories

/-- a vendored gem as the resolver sees it -/
structure Spec where
  name : Value
  version : Value
  platform : Value
  directory : Path
  source : Value
deriving DecidableEq

/-- name and version, and the platform if it is not the native one -/
def Spec.fullName (s : Spec) : String :=
  let base := s.name.text ++ "-" ++ s.version.text
  if s.platform = .str nativePlatform then base else base ++ "-" ++ s.platform.text

def spec (v : Vendored) (name version platform source : Value) : Except Fault Spec := do
  let n ← nameOf name
  match Table.get? n v.directories with
  | some directory => return ⟨name, version, platform, directory, source⟩
  | none => throw .notVendored

end Vendored

end Gemfile
