import Gemfile.Binary64

/-!
# The shortest decimal of a number

A decimal reads back as a number of the binary64 format if it lies in the interval of the reals
that round to the number; the interval's ends belong to it if the number's significand is even.

* `Interval.of num k`   the interval of the positive number `num / 2 ^ k`
* `Interval.shortest`   the decimal with the fewest digits in the interval, and of those the nearest
                        to the number, a tie to the even digit

`Decimal` is a row of digits without zeros at its end and the power of ten of its first digit.
-/

namespace Gemfile.Binary64

structure Decimal where
  digits : Nat
  scale : Int
deriving DecidableEq

structure Interval where
  low : Nat
  value : Nat
  high : Nat
  closed : Bool
  num : Nat
  den : Nat

def Interval.of (n : Nat) (k : Int) : Interval :=
  let e := lastPlace ((n.log2 : Int) - k)
  let m := match -k - e with
    | .ofNat j => n * Nat.pow 2 j
    | .negSucc j => n / Nat.pow 2 (j + 1)
  let narrow := decide (m = Nat.pow 2 (precision - 1)) && decide (minExponent < e)
  let unit := divPow 2 1 1 (2 - e)
  { low := if narrow then 4 * m - 1 else 4 * m - 2
    value := 4 * m
    high := 4 * m + 2
    closed := m % 2 == 0
    num := unit.1
    den := unit.2 }

def Interval.has (i : Interval) (d : Nat) (s : Int) : Bool :=
  let f := divPow 10 i.num i.den s
  if i.closed then decide (i.low * f.1 ≤ d * f.2) && decide (d * f.2 ≤ i.high * f.1)
  else decide (i.low * f.1 < d * f.2) && decide (d * f.2 < i.high * f.1)

/-- the power of ten of the first digit, for a positive `num / den` -/
def decimalExponent (num den : Nat) : Int :=
  if den ≤ num then ((num / den).repr.length : Int) - 1
  else
    match (List.range (maxExponent + precision)).find? fun j => den ≤ num * Nat.pow 10 (j + 1) with
    | some j => -((j : Int) + 1)
    | none => 0

/-- the multiples of `10 ^ s` next to the number that lie in its interval, the nearer one first -/
def Interval.near? (i : Interval) (s : Int) : Option Nat :=
  let f := divPow 10 (i.value * i.num) i.den s
  let below := f.1 / f.2
  let best := roundHalfEven f.1 f.2
  let other := if best = below then below + 1 else below
  if i.has best s then some best
  else if i.has other s then some other
  else none

/-- `d * 10 ^ s` without the zeros at the end of `d`, of which at most `fuel` are dropped -/
def Decimal.trim : Nat → Nat → Int → Decimal
  | 0, d, s => ⟨d, s⟩
  | fuel + 1, d, s => if d % 10 = 0 then Decimal.trim fuel (d / 10) (s + 1) else ⟨d, s⟩

def maxDigits : Nat := 17

def Interval.shortest (i : Interval) : Decimal :=
  let first := decimalExponent (i.value * i.num) i.den
  let found := (List.range maxDigits).findSome? fun (p : Nat) =>
    let s := first - (p : Int)
    (i.near? s).map fun d => Decimal.trim (maxDigits + 1) d s
  found.getD ⟨i.value * i.num / i.den, 0⟩

/-- the power of ten of a decimal's first digit -/
def Decimal.exponent (d : Decimal) : Int := d.scale + (d.digits.repr.length : Int) - 1

end Gemfile.Binary64
