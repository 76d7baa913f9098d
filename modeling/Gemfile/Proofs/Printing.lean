import Gemfile.Proofs.Lexing
import Gemfile.Statement.OfTokens

/-!
# Printed statements

One text for each tree of statements: arguments in round brackets with the options as a hash behind
them, texts between single quotes, blocks between `do` and `end`.

* `Value.print`, `Statement.print`, `Statement.printAll`
* `Value.Printable`, `Statement.Printable`   no numbers with a point, no key twice in a hash, and
                                             names that a statement can have
* `Statement.unlined`, `Statement.unlinedAll`   all but the line numbers
-/

namespace Gemfile
open Token

def quoted (cs : List Char) : List Char := '\x27' :: escapeSingle cs ++ ['\x27']

def commas (css : List (List Char)) : List Char := [',', ' '].intercalate css

def sign (n : Int) : List Char := if n < 0 then ['-'] else []

/-- decimal digits; a number with a point has no spelling here -/
def Scalar.print : Scalar → List Char
  | .nil => ['n', 'i', 'l']
  | .bool true => ['t', 'r', 'u', 'e']
  | .bool false => ['f', 'a', 'l', 's', 'e']
  | .int n => sign n ++ Nat.toDigits 10 n.natAbs
  | .float _ => []
  | .str s => quoted s.toList

mutual

def Value.print : Value → List Char
  | .scalar s => s.print
  | .list vs => '[' :: commas (Value.prints vs) ++ [']']
  | .hash es => '{' :: commas (Value.entryPrints es) ++ ['}']

def Value.prints : List Value → List (List Char)
  | [] => []
  | v :: vs => v.print :: Value.prints vs

def Value.entryPrints : List (String × Value) → List (List Char)
  | [] => []
  | (k, v) :: es => (quoted k.toList ++ [' ', '=', '>', ' '] ++ v.print) :: Value.entryPrints es

end

inductive Value.Printable : Value → Prop
  | nil : Printable .nil
  | bool (b : Bool) : Printable (.bool b)
  | int (n : Int) : Printable (.int n)
  | str (s : String) : Printable (.str s)
  | list {vs : List Value} : (∀ v ∈ vs, Printable v) → Printable (.list vs)
  | hash {es : List (String × Value)} : (es.map Prod.fst).Nodup → (∀ e ∈ es, Printable e.2) →
      Printable (.hash es)

/-- the arguments of a statement, with the options behind them -/
def printCall (args : List Value) (options : Options) : List Char :=
  '(' :: commas (Value.prints (args ++ [.hash options])) ++ [')']

namespace Statement

mutual

def print : Statement → List Char
  | ⟨name, args, options, body, _⟩ =>
    name.toList ++ (printCall args options ++
      match body with
      | none => ['\n']
      | some b => [' ', 'd', 'o', '\n'] ++ (printAll b ++ ['e', 'n', 'd', '\n']))

def printAll : List Statement → List Char
  | [] => []
  | t :: ts => print t ++ printAll ts

end

inductive Printable : Statement → Prop
  | mk {name : String} {args : List Value} {options : Options} {body : Option (List Statement)}
      {line : Nat} : Identifier name.toList → name ∉ reserved → (∀ v ∈ args, v.Printable) →
      (Value.hash options).Printable → (∀ b, body = some b → ∀ t ∈ b, Printable t) →
      Printable ⟨name, args, options, body, line⟩

mutual

/-- the statement with no line numbers, in its block neither -/
def unlined : Statement → Statement
  | ⟨name, args, options, body, _⟩ =>
    ⟨name, args, options,
      match body with
      | none => none
      | some b => some (unlinedAll b), 0⟩

def unlinedAll : List Statement → List Statement
  | [] => []
  | t :: ts => unlined t :: unlinedAll ts

end

end Statement

lemma commas_cons (cs ds : List Char) (css : List (List Char)) :
    commas (cs :: ds :: css) = cs ++ ',' :: ' ' :: commas (ds :: css) := by
  simp [commas, List.intercalate]

lemma commas_singleton (cs : List Char) : commas [cs] = cs := by
  simp [commas, List.intercalate]

lemma Value.prints_eq (vs : List Value) : Value.prints vs = vs.map Value.print := by
  induction vs with
  | nil => rw [Value.prints, List.map_nil]
  | cons v vs ih => rw [Value.prints, ih, List.map_cons]

def printEntry (e : String × Value) : List Char :=
  quoted e.1.toList ++ [' ', '=', '>', ' '] ++ e.2.print

lemma Value.entryPrints_eq (es : List (String × Value)) :
    Value.entryPrints es = es.map printEntry := by
  induction es with
  | nil => rw [Value.entryPrints, List.map_nil]
  | cons e es ih =>
    rw [Value.entryPrints, ih, List.map_cons]
    rfl

end Gemfile
