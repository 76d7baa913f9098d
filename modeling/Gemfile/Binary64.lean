/-!
# Numbers of the binary64 format

A finite number of the format is kept as the exact dyadic fraction it is, so that two numbers are
equal if and only if their representations are; zero has a second, negative form.  What is no number
carries a mark, since two of them are never taken for the same.

* `roundHalfEven num den`       the integer nearest to `num / den`, a tie to the even one
* `nearest negative num den`    the number of the format nearest to `± num / den`
* `ofDecimal negative c k`      the number of the format nearest to `± c * 10 ^ k`
-/

namespace Gemfile

inductive Binary64 where
  | finite (x : Dyadic)
  | negZero
  | infinite (negative : Bool)
  /-- no number; `mark` tells it from others -/
  | nan (mark : Nat)
deriving DecidableEq

namespace Binary64

/-- significands have at most this many bits -/
def precision : Nat := 53

/-- the exponent of the last place of the smallest numbers -/
def minExponent : Int := -1074

/-- numbers from `2 ^ maxExponent` on are infinite -/
def maxExponent : Nat := 1024

def zero (negative : Bool) : Binary64 := if negative then .negZero else .finite 0

def roundHalfEven (num den : Nat) : Nat :=
  let q := num / den
  let r := num % den
  if 2 * r < den then q
  else if den < 2 * r then q + 1
  else q + q % 2

def divPow (base : Nat) (num den : Nat) (k : Int) : Nat × Nat :=
  match k with
  | .ofNat k => (num, den * Nat.pow base k)
  | .negSucc k => (num * Nat.pow base (k + 1), den)

/-- the greatest `k` with `2 ^ k ≤ num / den`, for positive `num` and `den` -/
def binaryExponent (num den : Nat) : Int :=
  let k : Int := (num.log2 : Int) - (den.log2 : Int)
  let f := divPow 2 num den k
  if f.1 < f.2 then k - 1 else k

/-- the exponent of the last place of the numbers between `2 ^ k` and `2 ^ (k + 1)` -/
def lastPlace (k : Int) : Int := max (k - (precision - 1 : Nat)) minExponent

def nearest (negative : Bool) (num den : Nat) : Binary64 :=
  if num = 0 then zero negative
  else
    let e := lastPlace (binaryExponent num den)
    let f := divPow 2 num den e
    let m := roundHalfEven f.1 f.2
    if m = 0 then zero negative
    else if (maxExponent : Int) ≤ m.log2 + e then .infinite negative
    else .finite (Dyadic.ofIntWithPrec (if negative then -(m : Int) else m) (-e))

def ofDecimal (negative : Bool) (c : Nat) (k : Int) : Binary64 :=
  let f := divPow 10 c 1 (-k)
  nearest negative f.1 f.2

end Binary64

end Gemfile
