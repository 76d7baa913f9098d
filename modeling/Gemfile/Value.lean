import Gemfile.Binary64
import Gemfile.Table

/-!
# The values of a dependency file

* `Scalar`   nil, truth values, integers, numbers with a point, texts
* `Value`    scalars, lists, and hashes from texts to values in order of insertion

Arguments, option values and the names of gems and groups are values of any kind: what a statement
makes of a value that it did not expect is part of what the statement means.
-/

namespace Gemfile

inductive Scalar where
  | nil
  | bool (b : Bool)
  | int (n : Int)
  | float (x : Binary64)
  | str (s : String)
deriving DecidableEq

inductive Value where
  | scalar (s : Scalar)
  | list (items : List Value)
  | hash (entries : List (String × Value))

/-- options and hashes: values by name -/
abbrev Options := Table String Value

namespace Value

@[match_pattern] abbrev nil : Value := .scalar .nil
@[match_pattern] abbrev bool (b : Bool) : Value := .scalar (.bool b)
@[match_pattern] abbrev int (n : Int) : Value := .scalar (.int n)
@[match_pattern] abbrev float (x : Binary64) : Value := .scalar (.float x)
@[match_pattern] abbrev str (s : String) : Value := .scalar (.str s)

instance : Inhabited Value := ⟨.nil⟩

mutual

def decEq : (a b : Value) → Decidable (a = b)
  | .scalar a, .scalar b =>
    if h : a = b then isTrue (h ▸ rfl) else isFalse fun e => h (Value.scalar.inj e)
  | .list a, .list b =>
    match decEqItems a b with
    | isTrue h => isTrue (h ▸ rfl)
    | isFalse h => isFalse fun e => h (Value.list.inj e)
  | .hash a, .hash b =>
    match decEqEntries a b with
    | isTrue h => isTrue (h ▸ rfl)
    | isFalse h => isFalse fun e => h (Value.hash.inj e)
  | .scalar _, .list _ => isFalse nofun
  | .scalar _, .hash _ => isFalse nofun
  | .list _, .scalar _ => isFalse nofun
  | .list _, .hash _ => isFalse nofun
  | .hash _, .scalar _ => isFalse nofun
  | .hash _, .list _ => isFalse nofun

def decEqItems : (a b : List Value) → Decidable (a = b)
  | [], [] => isTrue rfl
  | [], _ :: _ => isFalse nofun
  | _ :: _, [] => isFalse nofun
  | v :: a, w :: b =>
    match decEq v w, decEqItems a b with
    | isTrue h, isTrue k => isTrue (h ▸ k ▸ rfl)
    | isFalse h, _ => isFalse fun e => h (List.cons.inj e).1
    | _, isFalse k => isFalse fun e => k (List.cons.inj e).2

def decEqEntries : (a b : List (String × Value)) → Decidable (a = b)
  | [], [] => isTrue rfl
  | [], _ :: _ => isFalse nofun
  | _ :: _, [] => isFalse nofun
  | (k, v) :: a, (l, w) :: b =>
    match decEq v w, decEqEntries a b with
    | isTrue h, isTrue j =>
      if g : k = l then isTrue (h ▸ j ▸ g ▸ rfl)
      else isFalse fun e => g (Prod.mk.inj (List.cons.inj e).1).1
    | isFalse h, _ => isFalse fun e => h (Prod.mk.inj (List.cons.inj e).1).2
    | _, isFalse j => isFalse fun e => j (List.cons.inj e).2

end

instance : DecidableEq Value := decEq

/-- the elements that a value runs through: the items of a list, the names of a hash, the
characters of a text; other values have none to run through -/
def elements? : Value → Option (List Value)
  | .list items => some items
  | .hash entries => some (entries.map fun e => .str e.1)
  | .str s => some (s.toList.map fun c => .str (String.singleton c))
  | _ => none

def scalar? : Value → Option Scalar
  | .scalar s => some s
  | _ => none

end Value

end Gemfile
