import Gemfile.Value

/-!
# Equality of values

Scalars are equal if they stand for the same thing: truth values count as the numbers one and
zero, numbers are equal if their exact values are, whatever their form.  Equal scalars have one
key, so they name one entry of a table.  What is no number has a key of its own, though it is equal
to nothing.

* `Scalar.key`     what a scalar stands for
* `Value.same`     sameness of values: lists item by item, hashes without regard to order
* `Value.equals`   equality of values: sameness, but for what is no number
-/

namespace Gemfile

inductive Key where
  | nil
  | number (x : Dyadic)
  | infinite (negative : Bool)
  | nan (mark : Nat)
  | text (s : String)
deriving DecidableEq

/-- an integer as an exact fraction -/
def exactInt (n : Int) : Dyadic := Dyadic.ofIntWithPrec n 0

def Scalar.key : Scalar → Key
  | .nil => .nil
  | .bool b => .number (exactInt (if b then 1 else 0))
  | .int n => .number (exactInt n)
  | .float (.finite x) => .number x
  | .float .negZero => .number 0
  | .float (.infinite negative) => .infinite negative
  | .float (.nan mark) => .nan mark
  | .str s => .text s

instance : Keyed Scalar Key := ⟨Scalar.key⟩

mutual

def Value.same : Value → Value → Bool
  | .scalar a, .scalar b => sameKey a b
  | .list a, .list b => Value.sameItems a b
  | .hash a, .hash b => decide (a.length = b.length) && Value.sameEntries a b
  | _, _ => false

def Value.sameItems : List Value → List Value → Bool
  | [], [] => true
  | v :: a, w :: b => v.same w && Value.sameItems a b
  | _, _ => false

/-- every entry of the first list has its like in the second -/
def Value.sameEntries : List (String × Value) → List (String × Value) → Bool
  | [], _ => true
  | (k, v) :: a, b =>
    (match Table.get? k b with
      | some w => v.same w
      | none => false) && Value.sameEntries a b

end

/-- what is no number -/
def Scalar.isNan : Scalar → Bool
  | .float (.nan _) => true
  | _ => false

def Value.isNan : Value → Bool
  | .scalar s => s.isNan
  | _ => false

def Value.equals (a b : Value) : Bool := !a.isNan && a.same b

end Gemfile
