import Gemfile.Binary64.Shortest
import Gemfile.Text.DecimalDigit

/-!
# The text of a number

* `Layout`      where positional notation ends and how an exponent is written
* `text x`      the shortest decimal that reads back as `x`, in the layout `standard`
* `read? s`     the number that such a text writes
-/

namespace Gemfile.Binary64

structure Layout where
  /-- the least exponent written in positional notation -/
  positionalFrom : Int
  /-- the first exponent no longer written in positional notation -/
  positionalTo : Int
  /-- the least number of digits of an exponent -/
  exponentDigits : Nat
  infinite : String
  nan : String

/-- numbers from `10 ^ -4` to below `10 ^ 16` are positional and show that they are no integers;
exponents have a sign and at least two digits -/
def standard : Layout := ⟨-4, 16, 2, "inf", "nan"⟩

def zeros (n : Nat) : String := String.ofList (List.replicate n '0')

def Layout.exponent (l : Layout) (e : Int) : String :=
  let digits := e.natAbs.repr
  "e" ++ (if e < 0 then "-" else "+") ++ zeros (l.exponentDigits - digits.length) ++ digits

def Layout.decimal (l : Layout) (d : Decimal) : String :=
  let digits := d.digits.repr
  let e := d.exponent
  if l.positionalFrom ≤ e ∧ e < l.positionalTo then
    match e with
    | .negSucc k => "0." ++ zeros k ++ digits
    | .ofNat k =>
      if digits.length ≤ k + 1 then digits ++ zeros (k + 1 - digits.length) ++ ".0"
      else String.ofList (digits.toList.take (k + 1)) ++ "." ++
        String.ofList (digits.toList.drop (k + 1))
  else
    let rest := digits.toList.drop 1
    String.ofList (digits.toList.take 1) ++
      (if rest.isEmpty then "" else "." ++ String.ofList rest) ++ l.exponent e

def sign (negative : Bool) : String := if negative then "-" else ""

def Layout.text (l : Layout) : Binary64 → String
  | .negZero => "-0.0"
  | .infinite negative => sign negative ++ l.infinite
  | .nan _ => l.nan
  | .finite .zero => "0.0"
  | .finite (.ofOdd n k _) => sign (n < 0) ++ l.decimal (Interval.of n.natAbs k).shortest

def text (x : Binary64) : String := standard.text x

def readExponent? : List Char → Option Int
  | [] => some 0
  | 'e' :: '-' :: ds => if ds.all Text.isDecimalDigit then some (-(Text.numeral ds : Int)) else none
  | 'e' :: '+' :: ds => if ds.all Text.isDecimalDigit then some (Text.numeral ds) else none
  | _ => none

/-- a number without its sign: digits, a point with more digits or none, an exponent or none -/
def readUnsigned? (negative : Bool) (cs : List Char) : Option Binary64 :=
  let whole := cs.takeWhile Text.isDecimalDigit
  let rest := cs.dropWhile Text.isDecimalDigit
  let fraction := match rest with
    | '.' :: r => r.takeWhile Text.isDecimalDigit
    | _ => []
  let tail := match rest with
    | '.' :: r => r.dropWhile Text.isDecimalDigit
    | r => r
  if whole.isEmpty then none
  else (readExponent? tail).map fun e =>
    ofDecimal negative (Text.numeral (whole ++ fraction)) (e - (fraction.length : Int))

/-- the number or non-number that a text writes; a non-number gets the mark zero -/
def read? (cs : List Char) : Option Binary64 :=
  match cs with
  | ['n', 'a', 'n'] => some (.nan 0)
  | '-' :: r => if r = ['i', 'n', 'f'] then some (.infinite true) else readUnsigned? true r
  | r => if r = ['i', 'n', 'f'] then some (.infinite false) else readUnsigned? false r

end Gemfile.Binary64
