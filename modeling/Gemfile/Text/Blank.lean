/-!
# Blank characters

* `isBlank c`   `c` separates words: the white space of Unicode together with the four
                separator controls U+001C to U+001F
* `strip cs`    the text without the blanks at its two ends
* `words cs`    the maximal runs of characters that are not blank, in order
-/

namespace Gemfile.Text

/-- the blank characters, as ranges of code points -/
def blankRanges : List (Nat × Nat) :=
  [(0x09, 0x0d), (0x1c, 0x20), (0x85, 0x85), (0xa0, 0xa0), (0x1680, 0x1680), (0x2000, 0x200a),
   (0x2028, 0x2029), (0x202f, 0x202f), (0x205f, 0x205f), (0x3000, 0x3000)]

def inRanges (ranges : List (Nat × Nat)) (n : Nat) : Bool :=
  ranges.any fun r => decide (r.1 ≤ n) && decide (n ≤ r.2)

def isBlank (c : Char) : Bool := inRanges blankRanges c.toNat

def stripLeft (cs : List Char) : List Char := cs.dropWhile isBlank

def stripRight (cs : List Char) : List Char := (cs.reverse.dropWhile isBlank).reverse

def strip (cs : List Char) : List Char := stripRight (stripLeft cs)

/-- the word a text starts with (empty in front of a blank), and the words after it -/
def wordsFrom : List Char → List Char × List (List Char)
  | [] => ([], [])
  | c :: cs =>
    let r := wordsFrom cs
    if isBlank c then ([], if r.1.isEmpty then r.2 else r.1 :: r.2) else (c :: r.1, r.2)

def words (cs : List Char) : List (List Char) :=
  let r := wordsFrom cs
  if r.1.isEmpty then r.2 else r.1 :: r.2

end Gemfile.Text
