/-!
# Code points

A text that comes from escapes may hold halves of pairs that stand alone.  Such a half is no
character, so the text is kept as a row of code points.

* `Codes`        a text by its code points
* `codes s`      the code points of a text
* `ofCodes? ns`  the text that some code points make up, and `none` if a half is among them
* `Codes.le`     the order of texts, code point by code point
-/

namespace Gemfile.Text

abbrev Codes := List Nat

def codes (s : String) : Codes := s.toList.map Char.toNat

def charOf? (n : Nat) : Option Char := if n.isValidChar then some (Char.ofNat n) else none

def charsOf? : Codes → Option (List Char)
  | [] => some []
  | n :: ns => (charOf? n).bind fun c => (charsOf? ns).map (c :: ·)

def ofCodes? (ns : Codes) : Option String := (charsOf? ns).map String.ofList

def isHigh (n : Nat) : Bool := decide (0xd800 ≤ n) && decide (n < 0xdc00)

def isLow (n : Nat) : Bool := decide (0xdc00 ≤ n) && decide (n < 0xe000)

/-- the code point that two halves are a pair for -/
def pair (high low : Nat) : Nat := 0x10000 + (high - 0xd800) * 0x400 + (low - 0xdc00)

/-- the row with every two halves that are a pair made one -/
def paired : Codes → Codes
  | [] => []
  | [m] => [m]
  | m :: n :: ns => if isHigh m && isLow n then pair m n :: paired ns else m :: paired (n :: ns)

def Codes.le : Codes → Codes → Bool
  | [], _ => true
  | _ :: _, [] => false
  | m :: ms, n :: ns => decide (m < n) || (m == n && Codes.le ms ns)

end Gemfile.Text
